import FuzzHelm.Lib.Json
import FuzzHelm.Lib.Run
import FuzzHelm.Storage.RiskEvent

namespace FuzzHelm

open Lib

/-!
# The journal of risk events

`GET /risk/events` returns the events of a run in pages, the newest first.  A page reads one row
more than it returns, and its cursor is the time and the id of its last row, as text.

* `formatCursor`, `parseCursor` — the text of a cursor; `parse_format` — it is read back as long
  as the time and the id are numbers of 63 bits;
* `riskEvents` — one request;
* `RiskEventsWalk` — the pages one after another, while rows join the table;
* `keyset_exact` — a walk returns what was there, once, and nothing else;
* `old_row_refused` — the cursor of a row from before the epoch is refused.
-/

/-! ### Cursors -/

/-- The greatest number of a column of the database. -/
def INT64_MAX : ℤ := 2 ^ 63 - 1

/-- The greatest page that a request may ask for. -/
def RISK_EVENTS_PAGE_MAX : ℤ := 2000

/-- The answers of the API that are not a page. -/
inductive HttpError where
  | notFound (detail : String)
  | unprocessable (field : String)
  | internal (e : PyError)
  deriving DecidableEq, Repr

/-- `format_cursor`: the time and the identifier of the last row of a page. -/
def formatCursor (tsNs id : ℤ) : String := .ofList (printInt tsNs ++ ':' :: printInt id)

/-- `[0-9]{1,19}`, as a whole: digits alone, and not too many of them. -/
def isNumeral (cs : List Char) : Bool :=
  cs.all Char.isDigit && decide (1 ≤ cs.length) && decide (cs.length ≤ 19)

/-- The two numbers of a text that has the pattern of a cursor. -/
def cursorNumbers (s : String) : Option (ℤ × ℤ) :=
  match s.toList.dropWhile Char.isDigit with
  | ':' :: id =>
    let ts := s.toList.takeWhile Char.isDigit
    if isNumeral ts && isNumeral id then
      some (Nat.ofDigitChars 10 ts 0, Nat.ofDigitChars 10 id 0)
    else none
  | _ => none

/-- The pattern of the parameter, and `parse_cursor`. -/
def parseCursor : Option String → Except HttpError (Option (ℤ × ℤ))
  | none => .ok none
  | some s =>
    match cursorNumbers s with
    | none => .error (.unprocessable "cursor")
    | some (tsNs, id) =>
      if INT64_MAX < tsNs ∨ INT64_MAX < id then .error (.unprocessable "cursor")
      else .ok (some (tsNs, id))

/-- A number that is written out is taken for a numeral as long as it fits a column. -/
theorem isNumeral_digits {n : ℕ} (h : (n : ℤ) ≤ INT64_MAX) :
    isNumeral (Nat.toDigits 10 n) = true := by
  have hlt : n < 10 ^ 19 := by
    unfold INT64_MAX at h
    omega
  have hlen : (Nat.toDigits 10 n).length ≤ 19 :=
    (Nat.length_toDigits_le_iff (by decide) (by decide)).mpr hlt
  have hpos : 1 ≤ (Nat.toDigits 10 n).length := Nat.length_toDigits_pos
  have hall : (Nat.toDigits 10 n).all Char.isDigit = true := by
    rw [List.all_eq_true]
    exact fun c hc => isDigit_of_mem_digits hc
  rw [isNumeral, hall]
  simp [hlen, hpos]

/-- **The text of a cursor** is read back. -/
theorem parse_format {tsNs id : ℤ} (hts : 0 ≤ tsNs ∧ tsNs ≤ INT64_MAX)
    (hid : 0 ≤ id ∧ id ≤ INT64_MAX) :
    parseCursor (some (formatCursor tsNs id)) = .ok (some (tsNs, id)) := by
  obtain ⟨t, rfl⟩ := Int.eq_ofNat_of_zero_le hts.1
  obtain ⟨i, rfl⟩ := Int.eq_ofNat_of_zero_le hid.1
  have htext : (formatCursor t i).toList = Nat.toDigits 10 t ++ ':' :: Nat.toDigits 10 i := by
    unfold formatCursor
    rw [String.toList_ofList]
    rfl
  -- the colon is no digit, so that the first number ends there
  have hstop : Stops (':' :: Nat.toDigits 10 i) := by
    intro d ds hd
    cases hd
    decide
  have hnumbers : cursorNumbers (formatCursor t i) = some ((t : ℤ), (i : ℤ)) := by
    have hhead := takeWhile_digits t hstop
    have htail : (Nat.toDigits 10 t ++ ':' :: Nat.toDigits 10 i).dropWhile Char.isDigit =
        ':' :: Nat.toDigits 10 i := by
      rw [List.dropWhile_append_of_pos fun c hc => isDigit_of_mem_digits hc]
      rfl
    unfold cursorNumbers
    rw [htext, htail, hhead]
    show (if (isNumeral (Nat.toDigits 10 t) && isNumeral (Nat.toDigits 10 i)) = true then
      some ((Nat.ofDigitChars 10 (Nat.toDigits 10 t) 0 : ℤ), (_ : ℤ)) else none) = _
    rw [isNumeral_digits hts.2, isNumeral_digits hid.2, Nat.ofDigitChars_ten_toDigits,
      Nat.ofDigitChars_ten_toDigits]
    rfl
  simp only [parseCursor, hnumbers]
  rw [if_neg (by omega)]

/-! ### One request -/

/-- `only`: the events that a request leaves out, if any. -/
inductive RiskEventsOnly where
  | all
  | veto
  | transitions
  deriving DecidableEq, Repr

/-- The parameters of a request, before they are checked. -/
structure RiskEventsRequest where
  runId : Option String
  rule : Option String
  only : RiskEventsOnly
  sinceNs : Option ℤ
  untilNs : Option ℤ
  cursor : Option String
  limit : ℤ

/-- `RiskEventPage`: the items and the cursor of the next page. -/
structure RiskEventPage where
  runId : Option String
  items : List RiskEventRow
  pageSize : ℤ
  nextCursor : Option String
  deriving DecidableEq, Repr

namespace RiskEventsRequest

variable (req : RiskEventsRequest)

/-- What the parameters but for the cursor have to be. -/
structure Accepted : Prop where
  rule : ∀ x ∈ req.rule, x.length ≤ 64
  sinceNs : ∀ s ∈ req.sinceNs, 0 ≤ s ∧ s ≤ INT64_MAX
  untilNs : ∀ u ∈ req.untilNs, 0 ≤ u ∧ u ≤ INT64_MAX
  limit : 1 ≤ req.limit ∧ req.limit ≤ RISK_EVENTS_PAGE_MAX

/-- The checks of the parameters. -/
def check : Except HttpError Unit :=
  if ∃ x ∈ req.rule, 64 < x.length then .error (.unprocessable "rule")
  else if ∃ s ∈ req.sinceNs, s < 0 ∨ INT64_MAX < s then .error (.unprocessable "since_ns")
  else if ∃ u ∈ req.untilNs, u < 0 ∨ INT64_MAX < u then .error (.unprocessable "until_ns")
  else if req.limit < 1 ∨ RISK_EVENTS_PAGE_MAX < req.limit then .error (.unprocessable "limit")
  else .ok ()

/-- The query of a run. -/
def query (run : String) (before : Option (ℤ × ℤ)) : RiskEventQuery where
  runId := run
  sinceNs := req.sinceNs
  untilNs := req.untilNs
  rule := if req.only = .transitions then some STATE_RULE else req.rule
  verdict := if req.only = .veto then some "VETO" else none
  before := before

end RiskEventsRequest

/-- The page of `limit` rows and one more, which shows that a page follows. -/
def RiskEventPage.ofRows (run : String) (limit : ℤ) (rows : List RiskEventRow) : RiskEventPage :=
  let more := decide (limit < rows.length)
  let items := rows.take limit.toNat
  let last := if more then items.getLast? else none
  ⟨some run, items, limit, last.bind fun r => r.tsNs.map fun tsNs => formatCursor tsNs r.id⟩

/-- The rows that a request of a run reads. -/
def RiskEventsRequest.read (req : RiskEventsRequest) (table : List RiskEventRow) (run : String)
    (before : Option (ℤ × ℤ)) : Except HttpError (List RiskEventRow) :=
  if req.only = .transitions ∧ req.rule ≠ none ∧ req.rule ≠ some STATE_RULE then .ok []
  else (RiskEventRepo.pageForRun table (req.query run before) (req.limit + 1)).mapError .internal

/-- `risk_events`; `resolve` is `resolve_live_run` on the table of the runs. -/
def riskEvents (resolve : Option String → Option String) (table : List RiskEventRow)
    (req : RiskEventsRequest) : Except HttpError RiskEventPage := do
  req.check
  let before ← parseCursor req.cursor
  match resolve req.runId with
  | none =>
    if req.runId ≠ none then .error (.notFound "run not found")
    else .ok ⟨none, [], req.limit, none⟩
  | some run => (req.read table run before).map (RiskEventPage.ofRows run req.limit)

/-! ### Pages of a listing -/

/-- **A row that is wanted**: it is of the run, its time in nanoseconds lies in the window, and it
    passes the filters. -/
def RiskEventsRequest.Wanted (req : RiskEventsRequest) (run : Option String) (r : RiskEventRow) :
    Prop :=
  (∃ x ∈ run, r.runId = some x) ∧ ∃ ts ∈ r.tsNs,
    (∀ s ∈ req.sinceNs, s ≤ ts) ∧ (∀ u ∈ req.untilNs, ts < u) ∧ (∀ x ∈ req.rule, r.rule = x) ∧
    (req.only = .veto → r.verdict = some "VETO") ∧
    (req.only = .transitions → r.rule = STATE_RULE)

/-- A transition is asked for by another rule. -/
def RiskEventsRequest.Contradicts (req : RiskEventsRequest) : Prop :=
  req.only = .transitions ∧ req.rule ≠ none ∧ req.rule ≠ some STATE_RULE

/-- The rows that the query of a run selects. -/
def RiskEventsRequest.selected (req : RiskEventsRequest) (run : String)
    (table : List RiskEventRow) : List RiskEventRow :=
  table.filter fun r => decide ((req.query run none).Selects r)

section Pages

variable {resolve : Option String → Option String} {req : RiskEventsRequest} {run : String}
  {table : List RiskEventRow} {cursor : Option String} {c : Option (ℤ × ℤ)}

/-- A request within its bounds passes the checks. -/
theorem check_ok (h : req.Accepted) : req.check = .ok () := by
  unfold RiskEventsRequest.check
  rw [if_neg, if_neg, if_neg, if_neg]
  · have := h.limit
    omega
  · rintro ⟨u, hu, hbad⟩
    have := h.untilNs u hu
    omega
  · rintro ⟨s, hs, hbad⟩
    have := h.sinceNs s hs
    omega
  · rintro ⟨x, hx, hbad⟩
    have := h.rule x hx
    omega

/-- A query for one run selects what the request wants of that run. -/
theorem selects_wanted (hcon : ¬req.Contradicts) (r : RiskEventRow) :
    (req.query run none).Selects r ↔ req.Wanted (some run) r := by
  rw [selects_iff]
  unfold RiskEventsRequest.Wanted RiskEventsRequest.query RiskEventsRequest.Contradicts at *
  dsimp only
  simp only [Option.mem_def, Option.some.injEq, exists_eq_left']
  refine and_congr_right fun _ => exists_congr fun ts => and_congr_right fun _ =>
    and_congr_right fun _ => and_congr_right fun _ => ?_
  cases honly : req.only with
  | all => simp
  | veto => simp
  | transitions =>
    cases hrule : req.rule with
    | none => simp
    | some x =>
      have hx : x = STATE_RULE := by
        by_contra hne
        exact hcon ⟨honly, by rw [hrule]; exact Option.some_ne_none x, by
          rw [hrule]
          exact fun h => hne (Option.some.inj h)⟩
      simp [hx]

/-- **One request** returns a page of the listing of what is selected. -/
theorem riskEvents_page (hacc : req.Accepted) (hrun : resolve req.runId = some run)
    (hcon : ¬req.Contradicts) (hcursor : parseCursor cursor = .ok c) :
    riskEvents resolve table { req with cursor := cursor } = .ok ⟨some run,
      (keysetPage RiskEventRow.key req.limit.toNat (c.map toLex) (req.selected run table)).1,
      req.limit,
      (keysetPage RiskEventRow.key req.limit.toNat (c.map toLex) (req.selected run table)).2.map
        fun k => formatCursor (ofLex k).1 (ofLex k).2⟩ := by
  have hlimit := hacc.limit.1
  have hcheck : RiskEventsRequest.check { req with cursor := cursor } = .ok () :=
    (check_ok hacc : req.check = .ok ())
  have hrows : (req.limit + 1).toNat = req.limit.toNat + 1 := by omega
  -- one row more than the limit is asked for
  have hread : RiskEventsRequest.read { req with cursor := cursor } table run c =
      .ok ((listing RiskEventRow.key (c.map toLex) (req.selected run table)).take
        (req.limit.toNat + 1)) := by
    refine (if_neg hcon).trans ?_
    show (RiskEventRepo.pageForRun table (req.query run c) (req.limit + 1)).mapError
      HttpError.internal = _
    rw [RiskEventRepo.pageForRun_eq table _ (by omega), hrows]
    rfl
  -- the selected rows have a time, so that each of them makes a cursor
  have hlast : ∀ r ∈ listing RiskEventRow.key (c.map toLex) (req.selected run table),
      (r.tsNs.map fun tsNs => formatCursor tsNs r.id) =
        some (formatCursor (ofLex r.key).1 (ofLex r.key).2) := by
    intro r hr
    have hsel := (mem_listing.mp hr).1
    rw [RiskEventsRequest.selected, List.mem_filter, decide_eq_true_iff, selects_iff] at hsel
    obtain ⟨-, ts, hts, -⟩ := hsel.2
    rw [Option.mem_def] at hts
    rw [RiskEventRow.key, hts]
    rfl
  refine bind_eq_ok.mpr ⟨(), hcheck, bind_eq_ok.mpr ⟨c, hcursor, ?_⟩⟩
  simp only [hrun, hread]
  show Except.ok (RiskEventPage.ofRows run req.limit _) = _
  unfold RiskEventPage.ofRows keysetPage
  generalize listing RiskEventRow.key (c.map toLex) (req.selected run table) = l at hlast
  have hmore : req.limit < ((l.take (req.limit.toNat + 1)).length : ℤ) ↔
      req.limit.toNat < (l.take (req.limit.toNat + 1)).length := by omega
  simp only [hmore, decide_eq_true_eq]
  congr 2
  split_ifs with hlen
  · cases hl : ((l.take (req.limit.toNat + 1)).take req.limit.toNat).getLast? with
    | none => rfl
    | some r =>
      have hmem := List.mem_of_mem_take (List.mem_of_mem_take (List.mem_of_getLast? hl))
      exact hlast r hmem
  · rfl

/-- A request that no row can match returns the empty page. -/
theorem riskEvents_empty (hacc : req.Accepted) (hcursor : parseCursor cursor = .ok c)
    (hempty : (resolve req.runId = none ∧ req.runId = none) ∨
      (resolve req.runId).isSome ∧ req.Contradicts) :
    riskEvents resolve table { req with cursor := cursor } =
      .ok ⟨resolve req.runId, [], req.limit, none⟩ := by
  have hcheck : RiskEventsRequest.check { req with cursor := cursor } = .ok () :=
    (check_ok hacc : req.check = .ok ())
  have hlimit := hacc.limit.1
  refine bind_eq_ok.mpr ⟨(), hcheck, bind_eq_ok.mpr ⟨c, hcursor, ?_⟩⟩
  rcases hempty with ⟨hnone, hid⟩ | ⟨hsome, hcon⟩
  · simp only [hnone]
    exact if_neg (not_not.mpr hid)
  · obtain ⟨run, hrun⟩ := Option.isSome_iff_exists.mp hsome
    have hread : RiskEventsRequest.read { req with cursor := cursor } table run c = .ok [] := by
      exact if_pos hcon
    simp only [hrun, hread]
    show Except.ok (RiskEventPage.ofRows run req.limit []) = _
    unfold RiskEventPage.ofRows
    simp

end Pages

/-! ### Following the cursor -/

/-- `next_cursor` is followed from a cursor to the end, while rows join the table between two
    requests. -/
inductive RiskEventsWalk (resolve : Option String → Option String) (req : RiskEventsRequest) :
    List RiskEventRow → List (List RiskEventRow) → Option String → List RiskEventRow → Prop
  | last {table : List RiskEventRow} {later : List (List RiskEventRow)} {cursor : Option String}
      {page : RiskEventPage}
      (answer : riskEvents resolve table { req with cursor := cursor } = .ok page)
      (ends : page.nextCursor = none) : RiskEventsWalk resolve req table later cursor page.items
  | next {table : List RiskEventRow} {later : List (List RiskEventRow)} {cursor : Option String}
      {page : RiskEventPage} {c : String} {rest : List RiskEventRow}
      (answer : riskEvents resolve table { req with cursor := cursor } = .ok page)
      (follows : page.nextCursor = some c)
      (walk : RiskEventsWalk resolve req (table ++ later.headD []) later.tail (some c) rest) :
      RiskEventsWalk resolve req table later cursor (page.items ++ rest)

/-- The numbers of a row that can stand in a cursor. -/
def RiskEventRow.InRange (r : RiskEventRow) : Prop :=
  ∀ ts ∈ r.tsNs, (0 ≤ ts ∧ ts ≤ INT64_MAX) ∧ 0 ≤ r.id ∧ r.id ≤ INT64_MAX

section Walks

variable {resolve : Option String → Option String} {req : RiskEventsRequest} {run : String}
  {table : List RiskEventRow} {later : List (List RiskEventRow)} {cursor : Option String}
  {c : Option (ℤ × ℤ)} {items : List RiskEventRow}

/-- What is selected of a longer table. -/
theorem selected_append (table batch : List RiskEventRow) :
    req.selected run (table ++ batch) = req.selected run table ++ req.selected run batch :=
  List.filter_append ..

/-- What is selected of the rows that arrive first. -/
theorem selected_headD (later : List (List RiskEventRow)) :
    (later.map (req.selected run)).headD [] = req.selected run (later.headD []) := by
  cases later with
  | nil => rfl
  | cons b later => rfl

/-- What is selected of all rows that arrive. -/
theorem selected_flatten (later : List (List RiskEventRow)) :
    (later.map (req.selected run)).flatten = req.selected run later.flatten := by
  unfold RiskEventsRequest.selected
  rw [List.filter_flatten]

/-- What joins the table later has numbers that can stand in a cursor. -/
theorem inRange_step (h : ∀ r ∈ req.selected run (table ++ later.flatten), r.InRange) :
    ∀ r ∈ req.selected run ((table ++ later.headD []) ++ later.tail.flatten), r.InRange := by
  rw [flatten_step]
  exact h

/-- The text of the next cursor is read back as the key of a row. -/
theorem parse_key {k : ℤ ×ₗ ℤ} {page : List RiskEventRow}
    (h : ∀ r ∈ req.selected run table, r.InRange)
    (hpage : keysetPage RiskEventRow.key req.limit.toNat (c.map toLex) (req.selected run table) =
      (page, some k)) :
    parseCursor (some (formatCursor (ofLex k).1 (ofLex k).2)) = .ok (some (ofLex k)) := by
  obtain ⟨r, hr, rfl⟩ := keysetPage_cursor hpage
  have hsel := hr
  rw [RiskEventsRequest.selected, List.mem_filter, decide_eq_true_iff, selects_iff] at hsel
  obtain ⟨-, ts, hts, -⟩ := hsel.2
  obtain ⟨hrange, hid⟩ := h r hr ts hts
  rw [Option.mem_def] at hts
  have hkey : ofLex r.key = (ts, r.id) := by
    rw [RiskEventRow.key, hts]
    rfl
  rw [hkey]
  exact parse_format hrange hid

/-- **A walk over the listing is a walk over the requests**, and the other way round. -/
theorem walk_of_keysetWalk (hacc : req.Accepted) (hrun : resolve req.runId = some run)
    (hcon : ¬req.Contradicts) {rows : List RiskEventRow} {batches : List (List RiskEventRow)}
    {k : Option (ℤ ×ₗ ℤ)}
    (h : KeysetWalk RiskEventRow.key req.limit.toNat rows batches k items) :
    ∀ {table : List RiskEventRow} {later : List (List RiskEventRow)} {cursor : Option String}
      {c : Option (ℤ × ℤ)}, rows = req.selected run table → batches = later.map (req.selected run) →
      k = c.map toLex → parseCursor cursor = .ok c →
      (∀ r ∈ req.selected run (table ++ later.flatten), r.InRange) →
      RiskEventsWalk resolve req table later cursor items := by
  induction h with
  -- the last page ends the walk on both sides
  | last page =>
    rintro table later cursor c rfl rfl rfl hcursor hrange
    have hanswer : riskEvents resolve table { req with cursor := cursor } = _ :=
      riskEvents_page hacc hrun hcon hcursor
    rw [page] at hanswer
    exact .last hanswer rfl
  -- a page that is not the last gives the cursor of the next request
  | @next rows batches k k' items rest page walk ih =>
    rintro table later cursor c rfl rfl rfl hcursor hrange
    have hanswer : riskEvents resolve table { req with cursor := cursor } = _ :=
      riskEvents_page hacc hrun hcon hcursor
    rw [page] at hanswer
    have hparse := parse_key (c := c) (fun r hr => hrange r (by
      rw [selected_append]
      exact List.mem_append_left _ hr)) page
    refine .next hanswer rfl (ih (c := some (ofLex k')) ?_ ?_ ?_ hparse (inRange_step hrange))
    · rw [selected_append, selected_headD]
    · exact List.map_tail.symm
    · rfl

/-- **The walk of the pages** is a walk of the keyset over what the request selects. -/
theorem keysetWalk_of_walk (hacc : req.Accepted) (hrun : resolve req.runId = some run)
    (hcon : ¬req.Contradicts) (h : RiskEventsWalk resolve req table later cursor items) :
    ∀ {c : Option (ℤ × ℤ)}, parseCursor cursor = .ok c →
      (∀ r ∈ req.selected run (table ++ later.flatten), r.InRange) →
      KeysetWalk RiskEventRow.key req.limit.toNat (req.selected run table)
        (later.map (req.selected run)) (c.map toLex) items := by
  induction h with
  -- the last page has no cursor, so that the key of the walk is none either
  | @last table later cursor page answer ends =>
    intro c hcursor hrange
    rw [riskEvents_page hacc hrun hcon hcursor] at answer
    cases answer
    exact .last (Prod.ext rfl (Option.map_eq_none_iff.mp ends))
  | @next table later cursor page c' rest answer follows walk ih =>
    intro c hcursor hrange
    rw [riskEvents_page hacc hrun hcon hcursor] at answer
    cases answer
    obtain ⟨k, hk, rfl⟩ := Option.map_eq_some_iff.mp follows
    have hpage : keysetPage RiskEventRow.key req.limit.toNat (c.map toLex)
        (req.selected run table) = ((keysetPage RiskEventRow.key req.limit.toNat (c.map toLex)
          (req.selected run table)).1, some k) := Prod.ext rfl hk
    have hparse := parse_key (c := c) (fun r hr => hrange r (by
      rw [selected_append]
      exact List.mem_append_left _ hr)) hpage
    have hrest := ih hparse (inRange_step hrange)
    rw [selected_append, ← selected_headD, List.map_tail] at hrest
    exact .next hpage hrest

/-- A request that no row can match ends at once. -/
theorem walk_empty (hacc : req.Accepted)
    (hempty : (resolve req.runId = none ∧ req.runId = none) ∨
      (resolve req.runId).isSome ∧ req.Contradicts) :
    RiskEventsWalk resolve req table later none items ↔ items = [] := by
  have hanswer (table : List RiskEventRow) : riskEvents resolve table { req with cursor := none } =
      .ok ⟨resolve req.runId, [], req.limit, none⟩ := riskEvents_empty (c := none) hacc rfl hempty
  constructor
  · intro h
    cases h with
    | last answer ends =>
      rw [hanswer] at answer
      cases answer
      rfl
    | next answer follows walk =>
      rw [hanswer] at answer
      cases answer
      cases follows
  · rintro rfl
    exact .last (hanswer table) rfl

/-- Rows of different identifiers have different keys. -/
theorem key_nodup {rows : List RiskEventRow} (h : (rows.map RiskEventRow.id).Nodup) :
    (rows.map RiskEventRow.key).Nodup := by
  apply List.Nodup.of_map fun k : ℤ ×ₗ ℤ => (ofLex k).2
  rw [List.map_map]
  exact h

end Walks

/-- What a walk has to return: the rows descend by time and id; what was there and is wanted is
    returned once, what joined the table later at most once, and nothing else is returned. -/
structure ExactListing (wanted : RiskEventRow → Prop) (table : List RiskEventRow)
    (later : List (List RiskEventRow)) (items : List RiskEventRow) : Prop where
  descending : items.Pairwise fun r r' => r'.key < r.key
  once : ∀ r ∈ table, wanted r → items.count r = 1
  atMostOnce : ∀ r ∈ later.flatten, items.count r ≤ 1
  nothingElse : ∀ r ∈ items, wanted r ∧ r ∈ table ++ later.flatten

/-- **Keyset pages.**  With parameters that are accepted, on rows whose time and id are numbers of
    63 bits, following the cursor ends, and the pages together are an exact listing. -/
theorem keyset_exact (resolve : Option String → Option String) (req : RiskEventsRequest)
    (hacc : req.Accepted) (hfound : req.runId ≠ none → resolve req.runId ≠ none)
    (table : List RiskEventRow) (later : List (List RiskEventRow))
    (hids : ((table ++ later.flatten).map RiskEventRow.id).Nodup)
    (hrange : ∀ r ∈ table ++ later.flatten, req.Wanted (resolve req.runId) r → r.InRange) :
    (∃ items, RiskEventsWalk resolve req table later none items) ∧
    ∀ items, RiskEventsWalk resolve req table later none items →
      ExactListing (req.Wanted (resolve req.runId)) table later items := by
  by_cases hempty : (resolve req.runId = none ∧ req.runId = none) ∨
      (resolve req.runId).isSome ∧ req.Contradicts
  -- no run, or two rule filters that exclude each other: nothing is wanted, nothing is listed
  · have hnone : ∀ r, ¬req.Wanted (resolve req.runId) r := by
      rintro r ⟨⟨x, hx, -⟩, ts, -, -, -, hrule, -, htransition⟩
      rcases hempty with ⟨hrun, -⟩ | ⟨-, honly, hset, hother⟩
      · rw [hrun] at hx
        cases hx
      · obtain ⟨y, hy⟩ := Option.ne_none_iff_exists'.mp hset
        apply hother
        rw [hy, ← hrule y hy, htransition honly]
    refine ⟨⟨[], (walk_empty hacc hempty).mpr rfl⟩, fun items h => ?_⟩
    rw [walk_empty hacc hempty] at h
    subst h
    exact ⟨List.Pairwise.nil, fun r _ hw => absurd hw (hnone r), fun r _ => by simp,
      fun r hr => by cases hr⟩
  · rw [not_or, not_and_or, not_and_or] at hempty
    obtain ⟨hrun, hcon⟩ := hempty
    have hsome : (resolve req.runId).isSome := by
      rw [Option.isSome_iff_ne_none]
      rcases hrun with hrun | hid
      · exact hrun
      · exact hfound hid
    -- from here on the walk is a keyset walk over the rows that the query selects
    have hcon := hcon.resolve_left (not_not.mpr hsome)
    obtain ⟨run, hrun⟩ := Option.isSome_iff_exists.mp hsome
    rw [hrun] at hrange ⊢
    have hselected : ∀ r, r ∈ req.selected run (table ++ later.flatten) ↔
        r ∈ table ++ later.flatten ∧ req.Wanted (some run) r := by
      intro r
      rw [RiskEventsRequest.selected, List.mem_filter, decide_eq_true_iff, selects_wanted hcon]
    have hin : ∀ r ∈ req.selected run (table ++ later.flatten), r.InRange := fun r hr =>
      hrange r ((hselected r).mp hr).1 ((hselected r).mp hr).2
    have hall : req.selected run table ++ (later.map (req.selected run)).flatten =
        req.selected run (table ++ later.flatten) := by
      rw [selected_flatten, selected_append]
    have hkeys : ((req.selected run table ++ (later.map (req.selected run)).flatten).map
        RiskEventRow.key).Nodup := by
      rw [hall]
      exact key_nodup (hids.sublist (List.Sublist.map _ List.filter_sublist))
    have hlimit : 0 < req.limit.toNat := by
      have := hacc.limit.1
      omega
    constructor
    · obtain ⟨items, hwalk⟩ := exists_keysetWalk hlimit (req.selected run table)
        (later.map (req.selected run)) none hkeys
      exact ⟨items, walk_of_keysetWalk hacc hrun hcon hwalk (c := none) rfl rfl rfl rfl hin⟩
    · intro items hwalk
      have hlisting := keysetWalk_of_walk hacc hrun hcon hwalk (c := none) rfl hin
      have hdesc := (hlisting.descending hlimit hkeys).1
      have hnodup : items.Nodup := hdesc.imp fun hlt heq => by
        rw [heq] at hlt
        exact lt_irrefl _ hlt
      refine ⟨hdesc, ?_, ?_, ?_⟩
      · intro r hr hw
        apply List.count_eq_one_of_mem hnodup
        refine hlisting.complete hlimit hkeys ?_ fun k hk => by cases hk
        rw [RiskEventsRequest.selected, List.mem_filter, decide_eq_true_iff, selects_wanted hcon]
        exact ⟨hr, hw⟩
      · intro r _
        exact List.nodup_iff_count_le_one.mp hnodup r
      · intro r hr
        have hmem := hlisting.sound hr
        rw [hall, hselected] at hmem
        exact ⟨hmem.2, hmem.1⟩

/-- A row of the run "r" at a time in microseconds. -/
def eventAt (id us : ℤ) : RiskEventRow := ⟨id, some "r", some us, "max_daily_loss", some "VETO"⟩

/-- All events of the run. -/
def allEvents (limit : ℤ) : RiskEventsRequest := ⟨some "r", none, .all, none, none, none, limit⟩

/-- Two rows of one time, of which the older one stands on the second page; a row that joins the
    table in between is seen once. -/
theorem keyset_exact_tied : ∃ items,
    RiskEventsWalk id (allEvents 1) [eventAt 1 5, eventAt 2 5] [[eventAt 3 4]] none items ∧
      ExactListing ((allEvents 1).Wanted (some "r")) [eventAt 1 5, eventAt 2 5] [[eventAt 3 4]]
        items := by
  have haccepted : (allEvents 1).Accepted :=
    { rule := fun x hx => nomatch hx
      sinceNs := fun x hx => nomatch hx
      untilNs := fun x hx => nomatch hx
      limit := by decide }
  have hrange : ∀ r ∈ [eventAt 1 5, eventAt 2 5] ++ [[eventAt 3 4]].flatten, ∀ ts ∈ r.tsNs,
      (0 ≤ ts ∧ ts ≤ INT64_MAX) ∧ 0 ≤ r.id ∧ r.id ≤ INT64_MAX := by decide
  obtain ⟨⟨items, hwalk⟩, hexact⟩ := keyset_exact id (allEvents 1) haccepted (fun h => h)
    [eventAt 1 5, eventAt 2 5] [[eventAt 3 4]] (by decide) (fun r hr _ => hrange r hr)
  exact ⟨items, hwalk, hexact items hwalk⟩

/-- The cursor of a row from before the epoch does not have the pattern, and the API has a largest
    page. -/
theorem old_row_refused :
    (¬∃ items, RiskEventsWalk id (allEvents 1) [eventAt 1 (-5), eventAt 2 (-5)] [] none items) ∧
    ¬∃ items, RiskEventsWalk id (allEvents 2001) [] [] none items := by
  have hfirst : riskEvents id [eventAt 1 (-5), eventAt 2 (-5)] (allEvents 1) =
      .ok ⟨some "r", [eventAt 2 (-5)], 1, some "-5000:2"⟩ := by decide +kernel
  have hsecond : riskEvents id [eventAt 1 (-5), eventAt 2 (-5)]
      { allEvents 1 with cursor := some "-5000:2" } = .error (.unprocessable "cursor") := by
    decide +kernel
  have hlarge : riskEvents id [] (allEvents 2001) = .error (.unprocessable "limit") := by
    decide +kernel
  constructor
  · rintro ⟨items, h⟩
    -- the first page names a row before the epoch, whose cursor is refused
    cases h with
    | last answer ends =>
      have := answer.symm.trans hfirst
      cases this
      cases ends
    | next answer follows walk =>
      have := answer.symm.trans hfirst
      cases this
      cases follows
      cases walk with
      | last answer ends => cases answer.symm.trans hsecond
      | next answer follows walk => cases answer.symm.trans hsecond
  -- a limit over 2000 gets no page at all
  · rintro ⟨items, h⟩
    cases h with
    | last answer ends => cases answer.symm.trans hlarge
    | next answer follows walk => cases answer.symm.trans hlarge

end FuzzHelm
