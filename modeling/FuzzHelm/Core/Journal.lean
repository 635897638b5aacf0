import FuzzHelm.Core.Digest
import FuzzHelm.Lib.HashChain

namespace FuzzHelm

open Lib

/-!
# The event journal and its hash chain

The append-only journal, each entry of which carries the hash of the entry before, and the
check of a list of entries against the chain.  The digest function is a parameter
`blake2b`; what is assumed of it (`Resists`) concerns the strings that are hashed.

* `EventJournal.append` / `verifyChain` — the journal and the check;
* `Records` — an entry as a block of a hash chain, its body the canonical bytes;
* `Intact` — the invariant of a journal that is appended to;
* `verifyChain_eq_none` — what passes the check is a hash chain;
* `chain_evidence` — a list that passes with the head of a journal agrees with it in all
  that is chained, and an edited payload is reported.
-/

/-- `GENESIS`: 32 zero bytes. -/
def genesis : List UInt8 := List.replicate 32 0

/-- The payload of an entry: a dictionary. -/
abbrev Payload := List (Key × Obj)

/-- `JournalEntry`: an event with its place in the chain. -/
structure JournalEntry where
  runId : Uuid
  seq : ℤ
  tsEventNs : ℤ
  tsIngestNs : ℤ
  kind : String
  payload : Payload
  prevHash : List UInt8
  hash : List UInt8

/-- What an entry contributes to its hash, besides the hash before it. -/
def content (seq tsEventNs tsIngestNs : ℤ) (kind : String) (payload : Payload) :
    Except TypeError (List UInt8) :=
  canonicalJson (.list [.int seq, .int tsEventNs, .int tsIngestNs, .str kind, .mapping payload])

/-- The bytes that the hash of an entry covers. -/
def JournalEntry.content (e : JournalEntry) : Except TypeError (List UInt8) :=
  FuzzHelm.content e.seq e.tsEventNs e.tsIngestNs e.kind e.payload

section Digest

variable (blake2b : List UInt8 → List UInt8)

/-- The hash of an entry: the digest of the hash before it and of its content. -/
def entryHash (prevHash : List UInt8) (seq tsEventNs tsIngestNs : ℤ) (kind : String)
    (payload : Payload) : Except TypeError (List UInt8) := do
  let c ← content seq tsEventNs tsIngestNs kind payload
  return blake2b (prevHash ++ c)

/-- The journal; `sunk` lists what its sink has been given, where it has one. -/
structure EventJournal where
  runId : Uuid
  head : List UInt8
  nextSeq : ℤ
  keep : Bool
  entries : List JournalEntry
  sunk : Option (List JournalEntry)

/-- A journal that starts a chain and keeps its entries. -/
def EventJournal.start (runId : Uuid) (nextSeq : ℤ) (sink : Bool) : EventJournal where
  runId := runId
  head := genesis
  nextSeq := nextSeq
  keep := true
  entries := []
  sunk := if sink then some [] else none

/-- What `append` is called with. -/
structure AppendCall where
  kind : String
  payload : Payload
  tsEventNs : ℤ
  tsIngestNs : ℤ

/-- Append an entry; a payload without canonical form raises before anything is changed. -/
def EventJournal.append (j : EventJournal) (c : AppendCall) :
    Except TypeError (EventJournal × JournalEntry) := do
  let h ← entryHash blake2b j.head j.nextSeq c.tsEventNs c.tsIngestNs c.kind c.payload
  let e : JournalEntry :=
    ⟨j.runId, j.nextSeq, c.tsEventNs, c.tsIngestNs, c.kind, c.payload, j.head, h⟩
  return ({ j with
    head := h
    nextSeq := j.nextSeq + 1
    entries := if j.keep then j.entries ++ [e] else j.entries
    sunk := j.sunk.map (· ++ [e]) }, e)

/-- One call of `append`: the journal is left as it was when it raises. -/
def EventJournal.call (j : EventJournal) (c : AppendCall) :
    Except TypeError JournalEntry × EventJournal :=
  match j.append blake2b c with
  | .ok (j', e) => (.ok e, j')
  | .error err => (.error err, j)

/-- The `seq` of the first entry that does not continue the chain after `prev`. -/
def verifyChain (prev : List UInt8) : List JournalEntry → Except TypeError (Option ℤ)
  | [] => .ok none
  | e :: es => do
    let expected ← entryHash blake2b prev e.seq e.tsEventNs e.tsIngestNs e.kind e.payload
    if e.prevHash ≠ prev ∨ e.hash ≠ expected then return some e.seq
    else verifyChain e.hash es

/-! ### What is assumed of the digest -/

/-- The strings that some entries are hashed from. -/
def hashed (es : List JournalEntry) : List (List UInt8) :=
  es.filterMap fun e => e.content.toOption.map (e.prevHash ++ ·)

/-- A digest of 32 bytes under which the strings of `S` do not collide and none of them is
    hashed to the genesis value. -/
structure Resists (S : List (List UInt8)) : Prop where
  length : ∀ b, (blake2b b).length = 32
  inj : ∀ a ∈ S, ∀ b ∈ S, blake2b a = blake2b b → a = b
  fresh : ∀ b ∈ S, blake2b b ≠ genesis

/-! ### Entries as blocks -/

/-- The function that links the blocks of a journal. -/
def link (prev c : List UInt8) : List UInt8 := blake2b (prev ++ c)

end Digest

/-- An entry and the block it is. -/
structure Records (e : JournalEntry) (b : Block (List UInt8) (List UInt8)) : Prop where
  prev : b.prev = e.prevHash
  body : e.content = .ok b.body
  hash : b.hash = e.hash

variable {blake2b : List UInt8 → List UInt8} {es es' : List JournalEntry}
  {bs bs' : List (Block (List UInt8) (List UInt8))} {g : List UInt8}

/-- The hash of an entry is that of the hash before it and its content. -/
theorem entryHash_eq_ok {prev h : List UInt8} {e : JournalEntry} :
    entryHash blake2b prev e.seq e.tsEventNs e.tsIngestNs e.kind e.payload = .ok h ↔
      ∃ c, e.content = .ok c ∧ link blake2b prev c = h := by
  unfold entryHash
  rw [bind_eq_ok]
  simp only [pure, Except.pure, Except.ok.injEq]
  rfl

/-- Intact entries are passed over by the check. -/
theorem verifyChain_append (hr : List.Forall₂ Records es bs) (hc : Chained (link blake2b) g bs) :
    verifyChain blake2b g (es ++ es') = verifyChain blake2b (tip g bs) es' := by
  induction hr generalizing g with
  | nil => rfl
  | @cons e b es bs he _ ih =>
    obtain ⟨hprev, hhash, hrest⟩ := hc
    rw [List.cons_append, verifyChain, entryHash_eq_ok.mpr ⟨b.body, he.body, rfl⟩]
    show (if e.prevHash ≠ g ∨ e.hash ≠ link blake2b g b.body then _ else _) = _
    rw [if_neg, ← he.hash, ih hrest]
    · rfl
    · push Not
      exact ⟨by rw [← he.prev, hprev], by rw [← he.hash, hhash]⟩

/-- **The check.** A list of entries passes exactly when it is a hash chain. -/
theorem verifyChain_eq_none : verifyChain blake2b g es = .ok none ↔
    ∃ bs, List.Forall₂ Records es bs ∧ Chained (link blake2b) g bs := by
  constructor
  · intro h
    induction es generalizing g with
    | nil => exact ⟨[], .nil, trivial⟩
    | cons e es ih =>
      rw [verifyChain, bind_eq_ok] at h
      obtain ⟨x, hx, h⟩ := h
      obtain ⟨c, hc, rfl⟩ := entryHash_eq_ok.mp hx
      split at h
      · cases h
      · rename_i hok
        push Not at hok
        obtain ⟨bs, hr, hchain⟩ := ih h
        exact ⟨⟨e.prevHash, c, e.hash⟩ :: bs, .cons ⟨rfl, hc, rfl⟩ hr, hok.1, hok.2, hchain⟩
  · rintro ⟨bs, hr, hc⟩
    have happend : verifyChain blake2b g (es ++ []) = verifyChain blake2b (tip g bs) [] :=
      verifyChain_append hr hc
    rw [List.append_nil] at happend
    exact happend

/-- An entry that does not carry its own hash is reported. -/
theorem verifyChain_eq_some {e : JournalEntry} {c : List UInt8} (hc : e.content = .ok c)
    (h : e.hash ≠ link blake2b g c) : verifyChain blake2b g (e :: es) = .ok (some e.seq) := by
  rw [verifyChain, entryHash_eq_ok.mpr ⟨c, hc, rfl⟩]
  show (if e.prevHash ≠ g ∨ e.hash ≠ link blake2b g c then _ else _) = _
  rw [if_pos (.inr h)]
  rfl

/-! ### The journal -/

/-- The invariant of a journal that started at `nextSeq`: its entries are a hash chain up to
    its head, numbered in order. -/
structure Intact (blake2b : List UInt8 → List UInt8) (nextSeq : ℤ) (j : EventJournal) :
    Prop where
  keeps : j.keep = true
  chain : ∃ bs, List.Forall₂ Records j.entries bs ∧ Chained (link blake2b) genesis bs ∧
    tip genesis bs = j.head
  numbered : ∀ (k : ℕ) (e : JournalEntry), j.entries[k]? = some e → e.seq = nextSeq + k
  next : j.nextSeq = nextSeq + j.entries.length

/-- A journal is intact when it starts. -/
theorem Intact.start (runId : Uuid) (nextSeq : ℤ) (sink : Bool) :
    Intact blake2b nextSeq (EventJournal.start runId nextSeq sink) where
  keeps := rfl
  chain := ⟨[], .nil, trivial, rfl⟩
  numbered := by
    intro k e h
    simp [EventJournal.start] at h
  next := (add_zero _).symm

/-- **Step lemma.** An entry that is appended points at the head and becomes it. -/
theorem Intact.append {n : ℤ} {j j' : EventJournal} {c : AppendCall} {e : JournalEntry}
    (h : Intact blake2b n j) (ha : j.append blake2b c = .ok (j', e)) :
    Intact blake2b n j' := by
  simp only [EventJournal.append, entryHash, bind_eq_ok, pure, Except.pure,
    Except.ok.injEq] at ha
  obtain ⟨x, ⟨d, hd, hx⟩, ha⟩ := ha
  rw [if_pos h.keeps] at ha
  obtain ⟨rfl, rfl⟩ := Prod.mk.inj ha
  obtain ⟨bs, hr, hchain, htip⟩ := h.chain
  refine ⟨h.keeps, ⟨bs ++ [⟨j.head, d, x⟩], ?_, ?_, ?_⟩, ?_, ?_⟩
  · exact List.rel_append hr (.cons ⟨rfl, hd, rfl⟩ .nil)
  · exact (chained_concat _).mpr ⟨hchain, htip.symm, hx.symm⟩
  · rw [tip_concat]
  · intro k e hk
    rw [List.getElem?_append] at hk
    split at hk
    · exact h.numbered k e hk
    · rename_i hlt
      rw [List.getElem?_singleton] at hk
      split at hk
      · rename_i hzero
        cases hk
        show j.nextSeq = n + k
        rw [h.next]
        omega
      · cases hk
  · show j.nextSeq + 1 = n + ((j.entries ++ [_]).length : ℤ)
    rw [h.next, List.length_append, List.length_singleton]
    push_cast
    omega

/-- **Step lemma**: a call keeps the chain, whether it appends or raises. -/
theorem Intact.call {n : ℤ} {j : EventJournal} (h : Intact blake2b n j) (c : AppendCall) :
    Intact blake2b n (j.call blake2b c).2 := by
  unfold EventJournal.call
  cases ha : j.append blake2b c with
  | error err => exact h
  | ok r => exact h.append ha

/-- **Run lemma.** The journal that any calls leave is intact. -/
theorem Intact.exec (runId : Uuid) (nextSeq : ℤ) (sink : Bool) (calls : List AppendCall) :
    Intact blake2b nextSeq
      (exec (EventJournal.call blake2b) (EventJournal.start runId nextSeq sink) calls).1 := by
  refine (Run.exec (EventJournal.call blake2b) _ calls).invariant
    (fun j _ => Intact blake2b nextSeq j) (Intact.start runId nextSeq sink) ?_
  intro j log c o j' hj hstep
  have hcall := hj.call c
  rw [hstep] at hcall
  exact hcall

/-! ### What the content of an entry determines -/

/-- The five-element list that is hashed. -/
def contentList (seq tsEventNs tsIngestNs : ℤ) (kind : String) (t : Json) : Json :=
  .arr [.int seq, .int tsEventNs, .int tsIngestNs, .str kind, t]

section Content

variable {a b c : ℤ} {kind : String} {p : Payload}

/-- The content of an entry is canonical when its payload is. -/
theorem toCanonical_content :
    toCanonical (.list [.int a, .int b, .int c, .str kind, .mapping p]) =
      (toCanonical (.mapping p)).map (contentList a b c kind) := by
  simp only [toCanonical, toCanonicalEach]
  cases toCanonicalItems p <;> rfl

/-- The content of an entry has a float just when its payload has one. -/
theorem assertNoFloat_content :
    assertNoFloat "$" (.list [.int a, .int b, .int c, .str kind, .mapping p]) = .ok () ↔
      assertNoFloat "$" (.mapping p) = .ok () := by
  simp only [assertNoFloat, assertNoFloatFrom, bind_eq_ok, true_and, and_true, exists_const]
  constructor
  · rintro ⟨u, hp⟩
    exact assertNoFloatItems_path p "$" hp
  · intro hp
    exact ⟨(), assertNoFloatItems_path p _ hp⟩

/-- The tree of the content is made of the fields and of the tree of the payload. -/
theorem canonicalTree_content {v : Json} :
    canonicalTree (.list [.int a, .int b, .int c, .str kind, .mapping p]) = .ok v ↔
      ∃ t, canonicalTree (.mapping p) = .ok t ∧ contentList a b c kind t = v := by
  simp only [canonicalTree_eq_ok, assertNoFloat_content, toCanonical_content]
  constructor
  · rintro ⟨hf, w, hw, rfl⟩
    cases hp : toCanonical (.mapping p) with
    | error e =>
      rw [hp] at hw
      cases hw
    | ok t =>
      rw [hp] at hw
      cases hw
      exact ⟨t.sortKeys, ⟨hf, t, rfl, rfl⟩, rfl⟩
  · rintro ⟨t, ⟨hf, w, hw, rfl⟩, rfl⟩
    exact ⟨hf, _, by rw [hw]; rfl, rfl⟩

/-- The content of an entry is written just when its payload has a canonical tree that fits. -/
theorem content_eq_ok {x : List UInt8} :
    content a b c kind p = .ok x ↔
      ∃ t, canonicalTree (.mapping p) = .ok t ∧ serialize (contentList a b c kind t) = .ok x := by
  rw [content, canonicalJson_eq_ok]
  constructor
  · rintro ⟨v, hv, hx⟩
    obtain ⟨t, ht, rfl⟩ := canonicalTree_content.mp hv
    exact ⟨t, ht, hx⟩
  · rintro ⟨t, ht, hx⟩
    exact ⟨_, canonicalTree_content.mpr ⟨t, ht, rfl⟩, hx⟩

end Content

/-- Two entries that agree in all the chain covers: everything but the run, and of the
    payload its tree. -/
structure SameRecord (e e' : JournalEntry) : Prop where
  seq : e.seq = e'.seq
  tsEventNs : e.tsEventNs = e'.tsEventNs
  tsIngestNs : e.tsIngestNs = e'.tsIngestNs
  kind : e.kind = e'.kind
  payload : canonicalTree (.mapping e.payload) = canonicalTree (.mapping e'.payload)
  prevHash : e.prevHash = e'.prevHash
  hash : e.hash = e'.hash

/-- Entries of one block agree. -/
theorem Records.same {e e' : JournalEntry} {b : Block (List UInt8) (List UInt8)}
    (h : Records e b) (h' : Records e' b) : SameRecord e e' := by
  obtain ⟨t, ht, hx⟩ := content_eq_ok.mp h.body
  obtain ⟨t', ht', hx'⟩ := content_eq_ok.mp h'.body
  have hlist := serialize_inj hx hx'
  simp only [contentList, Json.arr.injEq, List.cons.injEq, Json.int.injEq, Json.str.injEq,
    and_true] at hlist
  obtain ⟨hseq, hevent, hingest, hkind, htree⟩ := hlist
  exact ⟨hseq, hevent, hingest, hkind, by rw [ht, ht', htree], by rw [← h.prev, h'.prev],
    by rw [← h.hash, h'.hash]⟩

/-- Lists of entries of the same blocks agree entry by entry. -/
theorem Records.forall_same (h : List.Forall₂ Records es bs) (h' : List.Forall₂ Records es' bs) :
    List.Forall₂ SameRecord es es' := by
  induction h generalizing es' with
  | nil =>
    cases h'
    exact .nil
  | cons he _ ih =>
    cases h' with
    | cons he' hrest => exact .cons (he.same he') (ih hrest)

/-- Every block of a chain records an entry. -/
theorem Records.exists_of_mem (h : List.Forall₂ Records es bs)
    {b : Block (List UInt8) (List UInt8)} (hb : b ∈ bs) : ∃ e ∈ es, Records e b := by
  induction h with
  | nil => cases hb
  | @cons e c es bs he _ ih =>
    rcases List.mem_cons.mp hb with rfl | hb
    · exact ⟨e, List.mem_cons_self, he⟩
    · obtain ⟨d, hd, hdb⟩ := ih hb
      exact ⟨d, List.mem_cons_of_mem _ hd, hdb⟩

/-- Entries one after another are blocks one after another. -/
theorem Records.split (h : List.Forall₂ Records (es ++ es') bs) :
    ∃ bs₁ bs₂, List.Forall₂ Records es bs₁ ∧ List.Forall₂ Records es' bs₂ ∧
      bs = bs₁ ++ bs₂ := by
  induction es generalizing bs with
  | nil => exact ⟨[], bs, .nil, h, rfl⟩
  | cons e es ih =>
    rcases List.forall₂_cons_left_iff.mp h with ⟨b, bs, hb, hrest, rfl⟩
    obtain ⟨bs₁, bs₂, h₁, h₂, rfl⟩ := ih hrest
    exact ⟨b :: bs₁, bs₂, .cons hb h₁, h₂, rfl⟩

/-! ### Collisions -/

/-- The bytes of an entry are among those that are hashed. -/
theorem mem_hashed {e : JournalEntry} {c : List UInt8} (he : e ∈ es) (hc : e.content = .ok c) :
    e.prevHash ++ c ∈ hashed es := by
  rw [hashed, List.mem_filterMap]
  refine ⟨e, he, ?_⟩
  rw [hc]
  rfl

/-- Every block of a chain points at 32 bytes. -/
theorem prev_length (hlen : ∀ b, (blake2b b).length = 32) (hg : g.length = 32)
    (hc : Chained (link blake2b) g bs) : ∀ b ∈ bs, b.prev.length = 32 := by
  induction bs generalizing g with
  | nil => simp
  | cons b bs ih =>
    obtain ⟨hprev, hhash, hrest⟩ := hc
    rw [List.forall_mem_cons]
    constructor
    · rw [hprev, hg]
    · apply ih _ hrest
      rw [hhash]
      exact hlen _

/-- A digest that resists collisions binds the blocks that are hashed: the hash before them
    has a fixed length, so that the string which is hashed splits in one way. -/
theorem Resists.binding {S : List (List UInt8)} (h : Resists blake2b S)
    {T : Set (Block (List UInt8) (List UInt8))}
    (hT : ∀ b ∈ T, b.prev.length = 32 ∧ b.prev ++ b.body ∈ S) :
    Binding (link blake2b) genesis T where
  inj := by
    intro b hb c hc hlink
    have happend := h.inj _ (hT b hb).2 _ (hT c hc).2 hlink
    exact List.append_inj happend ((hT b hb).1.trans (hT c hc).1.symm)
  fresh := fun b hb => h.fresh _ (hT b hb).2

/-! ### Edited payloads -/

/-- The entry with another payload of the same tree. -/
structure Respelled (e e' : JournalEntry) : Prop where
  kept : e' = { e with payload := e'.payload }
  payload : canonicalTree (.mapping e'.payload) = canonicalTree (.mapping e.payload)

/-- The entry with a payload of another tree, its hashes kept. -/
structure Edited (e e' : JournalEntry) : Prop where
  kept : e' = { e with payload := e'.payload }
  payload : canonicalTree (.mapping e'.payload) ≠ canonicalTree (.mapping e.payload)

/-- An entry that is written in another way has the same block. -/
theorem Respelled.records {e e' : JournalEntry} {b : Block (List UInt8) (List UInt8)}
    (h : Respelled e e') (he : Records e b) : Records e' b := by
  obtain ⟨t, ht, hx⟩ := content_eq_ok.mp he.body
  rw [h.kept]
  exact ⟨he.prev, content_eq_ok.mpr ⟨t, by rw [h.payload, ht], hx⟩, he.hash⟩

/-- Entries that are written in other ways have the same chain. -/
theorem Respelled.forall_records (h : List.Forall₂ Respelled es es')
    (hr : List.Forall₂ Records es bs) : List.Forall₂ Records es' bs := by
  induction h generalizing bs with
  | nil => exact hr
  | cons he _ ih =>
    cases hr with
    | cons hb hrest => exact .cons (he.records hb) (ih hrest)

/-- An entry whose payload was edited is reported when the entries before it were not: by
    its number, or by the exception that serialising the new payload raises. -/
theorem verifyChain_of_edit {e e' : JournalEntry} {post post' : List JournalEntry}
    (hr : List.Forall₂ Records (es ++ e :: post) bs) (hc : Chained (link blake2b) genesis bs)
    (hR : Resists blake2b (hashed (es ++ e :: post ++ (es' ++ e' :: post'))))
    (hes : List.Forall₂ Respelled es es') (he : Edited e e') :
    verifyChain blake2b genesis (es' ++ e' :: post') =
      e'.content.map fun _ => some e.seq := by
  obtain ⟨bs₁, bs₂, hr₁, hr₂, rfl⟩ := Records.split hr
  rcases List.forall₂_cons_left_iff.mp hr₂ with ⟨b, bs₂, hb, hrest, rfl⟩
  rw [verifyChain_append (Respelled.forall_records hes hr₁) hc.of_append]
  have hseq : e'.seq = e.seq := by rw [he.kept]
  -- the check stops at the edited entry, with its error or with its number
  cases hx : e'.content with
  | error err =>
    rw [verifyChain, entryHash, ← JournalEntry.content, hx]
    rfl
  | ok x =>
    rw [verifyChain_eq_some hx, hseq]
    · rfl
    have hhash : e'.hash = b.hash := by rw [he.kept, hb.hash]
    have hprev : e'.prevHash = b.prev := by rw [he.kept, hb.prev]
    rw [hhash]
    apply hc.ne_link_of_edit
    · apply hR.binding
      have hb32 : b.prev.length = 32 := prev_length hR.length rfl hc b (by simp)
      intro c hmem
      rcases hmem with rfl | rfl
      · refine ⟨hb32, ?_⟩
        rw [hb.prev]
        exact mem_hashed (by simp) hb.body
      · refine ⟨hb32, ?_⟩
        rw [← hprev]
        exact mem_hashed (by simp) hx
    · intro hsame
      apply he.payload
      have hbody := hb.body
      rw [← hsame] at hbody
      obtain ⟨t, ht, hs⟩ := content_eq_ok.mp hbody
      obtain ⟨t', ht', hs'⟩ := content_eq_ok.mp hx
      have hlist := serialize_inj hs hs'
      simp only [contentList, Json.arr.injEq, List.cons.injEq, and_true] at hlist
      rw [ht, ht', hlist.2.2.2.2]

/-- The hash of the last entry, the genesis value where there is none. -/
def lastHash (es : List JournalEntry) : List UInt8 :=
  (es.getLast?.map JournalEntry.hash).getD genesis

/-- The last hash of the entries is the tip of the chain. -/
theorem lastHash_eq_tip (hr : List.Forall₂ Records es bs) : lastHash es = tip genesis bs := by
  rcases List.eq_nil_or_concat es with rfl | ⟨es, e, rfl⟩
  · rw [List.forall₂_nil_left_iff.mp hr]
    rfl
  · rw [List.concat_eq_append] at hr ⊢
    obtain ⟨bs₁, bs₂, -, hr₂, rfl⟩ := Records.split hr
    rcases List.forall₂_cons_left_iff.mp hr₂ with ⟨b, bs₂, hb, hrest, rfl⟩
    rw [List.forall₂_nil_left_iff.mp hrest, lastHash, tip_concat, hb.hash]
    simp

/-- **Tamper evidence.** The journal that any calls of `append` leave passes the check.  A
    list of entries that passes and ends with its head agrees with it entry by entry in all
    that is chained.  Where payloads were edited and the hashes kept, the first entry whose
    payload has another tree is reported by its number, or raises what serialising that
    payload raises; when there is no such entry the list passes. -/
theorem chain_evidence (blake2b : List UInt8 → List UInt8) (runId : Uuid) (nextSeq : ℤ)
    (sink : Bool) (calls : List AppendCall) (l : List JournalEntry)
    (hR : Resists blake2b (hashed ((exec (EventJournal.call blake2b)
      (EventJournal.start runId nextSeq sink) calls).1.entries ++ l))) :
    let j := (exec (EventJournal.call blake2b) (EventJournal.start runId nextSeq sink) calls).1
    verifyChain blake2b genesis j.entries = .ok none ∧
      (verifyChain blake2b genesis l = .ok none → lastHash l = j.head →
        List.Forall₂ SameRecord l j.entries) ∧
      (∀ pre e post pre' e' post', j.entries = pre ++ e :: post → l = pre' ++ e' :: post' →
        List.Forall₂ Respelled pre pre' → Edited e e' →
          verifyChain blake2b genesis l =
            e'.content.map fun _ => some (nextSeq + pre.length)) ∧
      (List.Forall₂ Respelled j.entries l → verifyChain blake2b genesis l = .ok none) := by
  intro j
  have hj : Intact blake2b nextSeq j := Intact.exec runId nextSeq sink calls
  obtain ⟨bs, hr, hc, htip⟩ := hj.chain
  refine ⟨verifyChain_eq_none.mpr ⟨bs, hr, hc⟩, ?_, ?_, ?_⟩
  · intro hl hhead
    obtain ⟨cs, hrl, hcl⟩ := verifyChain_eq_none.mp hl
    have hcs : cs = bs := by
      apply hcl.eq_of_tip hc (hR.binding _)
      · rw [← lastHash_eq_tip hrl, hhead, htip]
      · intro b hb
        rcases hb with hb | hb
        · obtain ⟨e, he, hrec⟩ := Records.exists_of_mem hrl hb
          refine ⟨prev_length hR.length rfl hcl b hb, ?_⟩
          rw [hrec.prev]
          exact mem_hashed (List.mem_append_right _ he) hrec.body
        · obtain ⟨e, he, hrec⟩ := Records.exists_of_mem hr hb
          refine ⟨prev_length hR.length rfl hc b hb, ?_⟩
          rw [hrec.prev]
          exact mem_hashed (List.mem_append_left _ he) hrec.body
    rw [hcs] at hrl
    exact Records.forall_same hrl hr
  -- one edit is found at its entry, whatever comes after it
  · intro pre e post pre' e' post' hsplit hl hpre he
    have hseq : e.seq = nextSeq + pre.length := by
      apply hj.numbered
      rw [hsplit]
      simp
    have hR' : Resists blake2b (hashed (j.entries ++ l)) := hR
    rw [hsplit, hl] at hR'
    rw [hsplit] at hr
    rw [hl, verifyChain_of_edit hr hc hR' hpre he, hseq]
  · intro hl
    exact verifyChain_eq_none.mpr ⟨bs, Respelled.forall_records hl hr, hc⟩

/-! ### Two entries -/

/-- The 32 bytes of a number. -/
def bytes32 (n : ℕ) : List UInt8 :=
  (List.range 32).map fun i => UInt8.ofNat (n / 256 ^ (31 - i) % 256)

/-- The digest of the first entry below. -/
def openDigest : List UInt8 :=
  bytes32 0x3f74cc2098741e96efb836b17f968b06416813c5461014f806640e03a3eee873

/-- The digest of the second entry below. -/
def dealDigest : List UInt8 :=
  bytes32 0xe9fc7de2b21a8209ef9179e85699a0bd08ba8ba66b07222daa62c62e5aab1527

/-- BLAKE2b-256 on the three strings that the two entries below and an edit of the second
    one are hashed from. -/
def blake2bSample : List UInt8 → List UInt8 := fun b =>
  if b = genesis ++ utf8 "[0,10,11,\"open\",\x7b\"cash\":\"100.00\",\"side\":1\x7d]".toList then
    openDigest
  else if b = openDigest ++ utf8 "[1,20,21,\"deal\",\x7b\"price\":\"1\"\x7d]".toList then
    dealDigest
  else if b = openDigest ++ utf8 "[1,20,21,\"deal\",\x7b\"price\":\"2\"\x7d]".toList then
    bytes32 0xa73465c0018c50e975877aaf3a3034bdb5da58ecd1d8fff9010c76ae2ce03841
  else genesis

/-- A capital with two decimals and the side of an enumeration, then a price of one. -/
def journalCalls : List AppendCall :=
  [⟨"open", [(.str "side", .enum (.int 1)), (.str "cash", .decimal (.finite false 10000 (-2)))],
      10, 11⟩,
    ⟨"deal", [(.str "price", .decimal (.finite false 1 0))], 20, 21⟩]

/-- The journal of run 1 after the two calls. -/
def sampleJournal : EventJournal :=
  (exec (EventJournal.call blake2bSample) (EventJournal.start 1 0 false) journalCalls).1

/-- The entries of a run: the second one has the hashes of a price of one. -/
def sampleEntries (runId : Uuid) (price : Obj) : List JournalEntry :=
  [⟨runId, 0, 10, 11, "open",
      [(.str "side", .enum (.int 1)), (.str "cash", .decimal (.finite false 10000 (-2)))],
      genesis, openDigest⟩,
    ⟨runId, 1, 20, 21, "deal", [(.str "price", price)], openDigest, dealDigest⟩]

/-- What the first entry is hashed from, after the genesis value. -/
def openContent : List UInt8 :=
  utf8 "[0,10,11,\"open\",\x7b\"cash\":\"100.00\",\"side\":1\x7d]".toList

/-- What the second entry is hashed from at a price of one, and at a price of two. -/
def dealContent : List UInt8 := utf8 "[1,20,21,\"deal\",\x7b\"price\":\"1\"\x7d]".toList

/-- The content of the second entry after an edit of its price. -/
def editedContent : List UInt8 := utf8 "[1,20,21,\"deal\",\x7b\"price\":\"2\"\x7d]".toList

/-- What is hashed: the first entry, and the second one at a price of one, as a string, and at a
    price of two. -/
theorem contents :
    content 0 10 11 "open"
        [(.str "side", .enum (.int 1)), (.str "cash", .decimal (.finite false 10000 (-2)))] =
      .ok openContent ∧
    content 1 20 21 "deal" [(.str "price", .str "1")] = .ok dealContent ∧
    content 1 20 21 "deal" [(.str "price", .str "2")] = .ok editedContent ∧
    editedContent ≠ dealContent := by
  decide +kernel

/-- A price of one as a decimal has the same content. -/
theorem content_deal : content 1 20 21 "deal" [(.str "price", .decimal (.finite false 1 0))] =
    .ok dealContent :=
  contents.2.1

/-- The digest of the first entry. -/
theorem blake2bSample_open : blake2bSample (genesis ++ openContent) = openDigest := if_pos rfl

/-- The second digest is not taken of what the first one is taken of. -/
theorem chained_ne_open (c : List UInt8) : openDigest ++ c ≠ genesis ++ openContent := fun h =>
  absurd (List.append_inj_left h rfl) (by decide)

/-- The digest of the second entry. -/
theorem blake2bSample_deal : blake2bSample (openDigest ++ dealContent) = dealDigest :=
  (if_neg (chained_ne_open _)).trans (if_pos rfl)

/-- The digest of the edited second entry. -/
theorem blake2bSample_edited : blake2bSample (openDigest ++ editedContent) =
    bytes32 0xa73465c0018c50e975877aaf3a3034bdb5da58ecd1d8fff9010c76ae2ce03841 := by
  have hne : openDigest ++ editedContent ≠ openDigest ++ dealContent := fun h =>
    contents.2.2.2 (List.append_cancel_left h)
  exact (if_neg (chained_ne_open _)).trans ((if_neg hne).trans (if_pos rfl))

/-- What is hashed of both entries. -/
theorem hashed_sampleEntries {runId : Uuid} {price : Obj} {c : List UInt8}
    (hc : content 1 20 21 "deal" [(.str "price", price)] = .ok c) :
    hashed (sampleEntries runId price) = [genesis ++ openContent, openDigest ++ c] := by
  simp only [hashed, sampleEntries, List.filterMap_cons, JournalEntry.content, contents.1, hc,
    Except.toOption, Option.map_some, List.filterMap_nil]

/-- The entries pass with a price that is spelled as one. -/
theorem verifyChain_sampleEntries {runId : Uuid} {price : Obj}
    (hc : content 1 20 21 "deal" [(.str "price", price)] = .ok dealContent) :
    verifyChain blake2bSample genesis (sampleEntries runId price) = .ok none := by
  refine verifyChain_eq_none.mpr ⟨[⟨genesis, openContent, openDigest⟩,
    ⟨openDigest, dealContent, dealDigest⟩], .cons ⟨rfl, contents.1, rfl⟩
      (.cons ⟨rfl, hc, rfl⟩ .nil), ?_⟩
  exact ⟨rfl, blake2bSample_open.symm, rfl, blake2bSample_deal.symm, trivial⟩

/-- The sample journal has both entries, and the digest of the second one. -/
theorem sampleJournal_eq : sampleJournal =
    ⟨1, dealDigest, 2, true, sampleEntries 1 (.decimal (.finite false 1 0)), none⟩ := by
  have hopen : entryHash blake2bSample genesis 0 10 11 "open"
      [(.str "side", .enum (.int 1)), (.str "cash", .decimal (.finite false 10000 (-2)))] =
        .ok openDigest := by
    rw [entryHash, contents.1, ← blake2bSample_open]
    rfl
  have hdeal : entryHash blake2bSample openDigest 1 20 21 "deal"
      [(.str "price", .decimal (.finite false 1 0))] = .ok dealDigest := by
    rw [entryHash, content_deal, ← blake2bSample_deal]
    rfl
  simp only [sampleJournal, journalCalls, exec, execFrom, EventJournal.call,
    EventJournal.append, EventJournal.start, hopen, bind, Except.bind, pure, Except.pure, zero_add,
    hdeal]
  rfl

/-- Its entries. -/
theorem entries_sampleJournal :
    sampleJournal.entries = sampleEntries 1 (.decimal (.finite false 1 0)) := by
  rw [sampleJournal_eq]

/-- Its head. -/
theorem head_sampleJournal : sampleJournal.head = dealDigest := by
  rw [sampleJournal_eq]

/-- The strings that are hashed here do not collide. -/
theorem resists_sample {l : List JournalEntry}
    (h : ∀ b ∈ hashed l, b ∈ [genesis ++ openContent, openDigest ++ dealContent,
      openDigest ++ editedContent]) :
    Resists blake2bSample (hashed l) where
  length := by
    intro b
    unfold blake2bSample
    split
    · rfl
    split
    · rfl
    split <;> rfl
  inj := by
    have hnodup : ([genesis ++ openContent, openDigest ++ dealContent,
        openDigest ++ editedContent].map blake2bSample).Nodup := by
      simp only [List.map_cons, List.map_nil, blake2bSample_open, blake2bSample_deal,
        blake2bSample_edited]
      decide +kernel
    exact fun a ha b hb => List.inj_on_of_nodup_map hnodup (h a ha) (h b hb)
  fresh := by
    have hall : ∀ d ∈ [genesis ++ openContent, openDigest ++ dealContent,
        openDigest ++ editedContent].map blake2bSample, d ≠ genesis := by
      simp only [List.map_cons, List.map_nil, blake2bSample_open, blake2bSample_deal,
        blake2bSample_edited]
      decide +kernel
    exact fun b hb => hall _ (List.mem_map_of_mem (h b hb))

/-- The journal and one more list of entries. -/
theorem resists_sampleEntries {runId : Uuid} {price : Obj} {c : List UInt8}
    (hc : content 1 20 21 "deal" [(.str "price", price)] = .ok c)
    (h : c = dealContent ∨ c = editedContent) :
    Resists blake2bSample (hashed (sampleJournal.entries ++ sampleEntries runId price)) := by
  apply resists_sample
  rw [hashed, List.filterMap_append, ← hashed, ← hashed, entries_sampleJournal,
    hashed_sampleEntries content_deal, hashed_sampleEntries hc]
  rcases h with rfl | rfl <;> simp

/-- A price of two in the second entry is reported; the entries of another run, which pass
    and have the same head, agree in all that is chained. -/
theorem chain_evidence_sample :
    verifyChain blake2bSample genesis (sampleEntries 1 (.str "2")) = .ok (some 1) ∧
      List.Forall₂ SameRecord (sampleEntries 2 (.str "1")) sampleJournal.entries := by
  constructor
  · have h := (chain_evidence blake2bSample 1 0 false journalCalls (sampleEntries 1 (.str "2"))
      (resists_sampleEntries contents.2.2.1 (.inr rfl))).2.2.1
    refine (h [_] _ [] [_] _ [] entries_sampleJournal rfl (.cons ⟨rfl, rfl⟩ .nil)
      ⟨rfl, ?_⟩).trans ?_
    · intro htree
      have hleaf : (Except.ok (Json.obj [("price", .str "2")]) : Except TypeError Json) =
          .ok (.obj [("price", .str "1")]) := htree
      simp at hleaf
    · rw [JournalEntry.content, contents.2.2.1]
      rfl
  · exact (chain_evidence blake2bSample 1 0 false journalCalls (sampleEntries 2 (.str "1"))
      (resists_sampleEntries contents.2.1 (.inl rfl))).2.1
        (verifyChain_sampleEntries contents.2.1) head_sampleJournal.symm

/-- The run of an entry is not hashed, and its payload is hashed by the tree: the entries of
    another run, and those with the price as a string, pass with the head of the journal. -/
theorem chain_evidence_gaps :
    Resists blake2bSample (hashed (sampleJournal.entries ++
        sampleEntries 2 (.decimal (.finite false 1 0)))) ∧
      verifyChain blake2bSample genesis (sampleEntries 2 (.decimal (.finite false 1 0))) =
        .ok none ∧
      lastHash (sampleEntries 2 (.decimal (.finite false 1 0))) = sampleJournal.head ∧
      sampleEntries 2 (.decimal (.finite false 1 0)) ≠ sampleJournal.entries ∧
    Resists blake2bSample (hashed (sampleJournal.entries ++ sampleEntries 1 (.str "1"))) ∧
      verifyChain blake2bSample genesis (sampleEntries 1 (.str "1")) = .ok none ∧
      lastHash (sampleEntries 1 (.str "1")) = sampleJournal.head ∧
      sampleEntries 1 (.str "1") ≠ sampleJournal.entries := by
  refine ⟨resists_sampleEntries content_deal (.inl rfl), verifyChain_sampleEntries content_deal,
    head_sampleJournal.symm, ?_, resists_sampleEntries contents.2.1 (.inl rfl),
    verifyChain_sampleEntries contents.2.1, head_sampleJournal.symm, ?_⟩
  · intro h
    cases congrArg (List.map JournalEntry.runId) h
  · intro h
    rw [entries_sampleJournal] at h
    cases h

end FuzzHelm
