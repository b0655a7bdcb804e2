import Pigeonpost.Verification.Loft.Writes
import Pigeonpost.Verification.Shared.SampleLoft

/-! # Walking through a mailbox

Pages of a mailbox taken one after another, while events arrive and expire between them. -/

namespace Pigeonpost

open Loft SampleLoft LoftStore List

variable {H : Type} [Sha256 H] [HashBytes H] [DecidableEq H]

/-! ## The loft at work -/

/-- What changes the store of a configured loft. -/
inductive ServerOp where
  | publish (body : Bytes) (now : ℕ) (expectedSeq : Option UInt64)
  | sweepExpired (now batch : ℕ)
  | putPolicy (policy : RecipientPolicy) (now : ℕ)
  | putAgentRecord (address : Bytes) (record : AgentRecord) (now : ℕ)
  | putRotationRecord (address : Bytes) (record : RotationRecord) (now : ℕ)

/-- One page request: what happened before it, and the limit it asks for. -/
structure PageRequest where
  before : List ServerOp
  limit : Option ℕ

section Serve

variable (ctx : ServerContext) (config : LoftConfig)

def serveOp (store : LoftStore H) : ServerOp → Except LoftError (LoftStore H)
  | .publish body now expectedSeq =>
    (publish ctx config store body now expectedSeq).map Prod.fst
  | .sweepExpired now batch => (store.sweepExpired now batch).map Prod.fst
  | .putPolicy policy now =>
    store.putPolicy ctx.toLoftContext policy config.capacityBytes now
  | .putAgentRecord address record now =>
    store.putAgentRecord ctx.toLoftContext address record config.capacityBytes now
  | .putRotationRecord address record now =>
    (store.putRotationRecord ctx.toLoftContext address record now config.capacityBytes).map Prod.fst

/-- A failed operation leaves the store as it was. -/
def serveStep (store : LoftStore H) (op : ServerOp) : LoftStore H :=
  match serveOp ctx config store op with
  | .ok store' => store'
  | .error _ => store

def serve (store : LoftStore H) (ops : List ServerOp) : LoftStore H :=
  ops.foldl (serveStep ctx config) store

/-- The pages a client gets that follows the cursors until no more is waiting, each with
the store it was taken from. -/
def walk (recipient : Bytes32) :
    LoftStore H → ℕ → List PageRequest → Except LoftError (List (LoftStore H × FetchResponse))
  | _, _, [] => .ok []
  | store, cursor, request :: requests => do
    let store := serve ctx config store request.before
    let response ← fetchResponse ctx config store recipient cursor request.limit
    let _ ← encodeResponse ctx config response
    if response.more then
      let rest ← walk recipient store response.nextCursor requests
      return (store, response) :: rest
    else return [(store, response)]

end Serve

/-- All events of a walk, in the order they came. -/
def received (pages : List (LoftStore H × FetchResponse)) : List Wrap :=
  pages.flatMap fun page => page.2.events

/-- The last page said that no more is waiting. -/
def finished (pages : List (LoftStore H × FetchResponse)) : Prop :=
  ∃ page ∈ pages.getLast?, page.2.more = false

/-! ## Stored events -/

/-- A public wrap is read back from its text. -/
def ReadsWraps (ctx : LoftContext) : Prop :=
  ∀ wrap blob, wrap.verifyPublic ctx.prim = .ok () →
    wrap.toJson ctx.json.attribution = some blob → ctx.json.readWrap blob = some wrap

/-- The row holds a public envelope within the bounds. -/
structure HoldsWrap (ctx : LoftContext) (config : LoftConfig) (row : EventRow H) (wrap : Wrap) :
    Prop where
  text : wrap.toJson ctx.json.attribution = some row.blob
  isPublic : wrap.verifyPublic ctx.prim = .ok ()
  cursor_le : row.cursor ≤ i64Max
  length_le : row.blob.length ≤ config.maxEventBytes

def HoldsWraps (ctx : LoftContext) (config : LoftConfig) (store : LoftStore H) : Prop :=
  ∀ row ∈ store.events.rows, ∃ wrap, HoldsWrap ctx config row wrap

variable {ctx : ServerContext} {config : LoftConfig} {store store' : LoftStore H}
variable {response : FetchResponse} {recipient : Bytes32} {cursor : ℕ}

omit [Sha256 H] [HashBytes H] [DecidableEq H] in
theorem HoldsWraps.mono {ctx : LoftContext} (h : HoldsWraps ctx config store)
    (hs : ∀ row ∈ store'.events.rows, row ∈ store.events.rows) : HoldsWraps ctx config store' :=
  fun row hr => h row (hs row hr)

section

variable (h : HoldsWraps ctx.toLoftContext config store)

include h

omit [HashBytes H] in
theorem HoldsWraps.publish {body : Bytes} {now : ℕ} {expectedSeq : Option UInt64} {stored : Bool}
    (hp : publish ctx config store body now expectedSeq = .ok (store', stored)) :
    HoldsWraps ctx.toLoftContext config store' := by
  simp only [Pigeonpost.publish, preparePublish, ok_iff] at hp
  obtain ⟨_, ⟨request, -, encoded, he, hl, _, hpub, rfl⟩, expiresAt, -, hadm⟩ := hp
  obtain ⟨blob, hb, ⟨rfl, -⟩ | ⟨-, -, row, ha, -, -, hr, -⟩⟩ :=
    insert_eq_ok (admitEvent_eq_ok hadm).2
  · exact h
  · rw [he] at hb
    cases hb
    intro x hx
    obtain hx | rfl := (KeyedTable.mem_insert ha.events).mp hx
    · exact h x hx
    · exact ⟨request.wrap, hr ▸ he, hpub, ha.cursor_le, hr ▸ not_lt.mp hl⟩

theorem HoldsWraps.serveStep (op : ServerOp) :
    HoldsWraps ctx.toLoftContext config (serveStep ctx config store op) := by
  unfold Pigeonpost.serveStep
  cases hs : serveOp ctx config store op with
  | error => exact h
  | ok =>
    cases op with
    | publish =>
      obtain ⟨⟨_, stored⟩, hp, rfl⟩ := map_eq_ok.mp hs
      exact h.publish hp
    | sweepExpired =>
      obtain ⟨⟨_, count⟩, hsweep, rfl⟩ := map_eq_ok.mp hs
      obtain rfl | ⟨swept, hswe⟩ := sweepExpired_eq_ok hsweep
      · exact h
      · refine h.mono fun row hr => ?_
        rw [hswe.events] at hr
        exact mem_of_mem_filter hr
    | putPolicy =>
      obtain rfl | ⟨row, hputs⟩ := putPolicy_eq_ok hs
      · exact h
      · exact h.mono fun row hr => hputs.events ▸ hr
    | putAgentRecord =>
      obtain ⟨-, -, -, ⟨rfl, -⟩ | ⟨row, hputs, -⟩⟩ := putAgentRecord_eq_ok hs
      · exact h
      · exact h.mono fun row hr => hputs.events ▸ hr
    | putRotationRecord =>
      obtain ⟨⟨_, stored⟩, hput, rfl⟩ := map_eq_ok.mp hs
      obtain ⟨-, -, -, ⟨rfl, -⟩ | ⟨-, _, row, _, hputs, -⟩⟩ := putRotationRecord_eq_ok hput
      · exact h
      · exact h.mono fun row hr => hputs.events ▸ hr

theorem HoldsWraps.serve (ops : List ServerOp) :
    HoldsWraps ctx.toLoftContext config (serve ctx config store ops) := by
  induction ops generalizing store with
  | nil => exact h
  | cons op _ ih => exact ih (h.serveStep op)

end

/-! ## One page -/

def mailbox (store : LoftStore H) (recipient : Bytes32) (cursor : ℕ) : List (EventRow H) :=
  (store.events.rows.filter fun row => row.recipient = recipient && cursor < row.cursor).mergeSort
    fun a b => a.cursor ≤ b.cursor

variable {rows : List (EventRow H)} {requested : Option ℕ}

section Pages

omit [Sha256 H] [HashBytes H] [DecidableEq H]

theorem mem_mailbox {row : EventRow H} : row ∈ mailbox store recipient cursor ↔
    row ∈ store.events.rows ∧ row.recipient = recipient ∧ cursor < row.cursor := by
  simp [mailbox, mem_mergeSort]

theorem pairwise_mailbox (store : LoftStore H) (recipient : Bytes32) (cursor : ℕ) :
    (mailbox store recipient cursor).Pairwise fun a b => a.cursor < b.cursor := by
  have hs : (mailbox store recipient cursor).Pairwise
      fun a b => decide (a.cursor ≤ b.cursor) = true :=
    pairwise_mergeSort (by simpa using fun _ _ _ => Nat.le_trans)
      (by simpa using fun a b => Nat.le_total _ _) _
  have hn : ((mailbox store recipient cursor).map EventRow.cursor).Nodup :=
    ((mergeSort_perm _ _).map _).nodup_iff.mpr (store.events.nodup.sublist (filter_sublist.map _))
  have hne : (mailbox store recipient cursor).Pairwise fun a b => a.cursor ≠ b.cursor :=
    pairwise_map.mp hn
  exact (hs.and hne).imp fun h => lt_of_le_of_ne (of_decide_eq_true h.1) h.2

theorem cursor_le_of_getLast {row last : EventRow H}
    (hs : rows.Pairwise fun a b => a.cursor < b.cursor) (hr : row ∈ rows)
    (hl : rows.getLast? = some last) : row.cursor ≤ last.cursor := by
  obtain ⟨init, rfl⟩ := getLast?_eq_some_iff.mp hl
  obtain hr | hr := mem_append.mp hr
  · exact ((pairwise_append.mp hs).2.2 row hr last (mem_singleton_self _)).le
  · rw [mem_singleton.mp hr]

/-- What the validation of a configuration says about its pages. -/
structure PageBounds (config : LoftConfig) : Prop where
  event_pos : 0 < config.maxEventBytes
  limit_le : config.maxFetchLimit ≤ 500
  response : 2 * config.maxEventBytes ≤ config.maxFetchResponseBytes

theorem pageBounds_of_validateConfig {prim : Primitives} {urlText : Bytes → Bytes}
    (h : validateConfig prim urlText config = .ok ()) : PageBounds config := by
  simp only [validateConfig, ok_iff, outside, Bool.or_eq_true, decide_eq_true_eq, not_or] at h
  obtain ⟨-, -, -, -, ⟨⟨he, hreq⟩, -⟩, ⟨⟨⟨-, hm⟩, -⟩, hr⟩, -⟩ := h
  have hmul : saturatingMul config.maxEventBytes 2 = config.maxEventBytes * 2 := by
    have hle := he.2
    unfold saturatingMul u64Limit
    unfold LoftConfig.maxEventBytesLimit at hle
    omega
  unfold LoftConfig.maxFetchLimitLimit at hm
  exact ⟨by omega, by omega, by omega⟩

/-- The pages leave the room of one event for what stands around the events. -/
theorem PageBounds.pageLimit (h : PageBounds config) (requested : Option ℕ) :
    config.pageLimit requested ≤ 500 ∧
      (config.pageLimit requested + 1) * config.maxEventBytes ≤ config.maxFetchResponseBytes := by
  have hle := h.limit_le
  have hq : 2 ≤ config.maxFetchResponseBytes / config.maxEventBytes :=
    (Nat.le_div_iff_mul_le h.event_pos).mpr h.response
  have hm : config.pageLimit requested =
      min (min (max (requested.getD config.defaultFetchLimit) 1) config.maxFetchLimit)
        (max (config.maxFetchResponseBytes / config.maxEventBytes - 1) 1) := rfl
  have hl : config.pageLimit requested + 1 ≤
      config.maxFetchResponseBytes / config.maxEventBytes := by omega
  exact ⟨by omega, (Nat.mul_le_mul_right _ hl).trans (Nat.div_mul_le_self _ _)⟩

/-- A page has every row of the mailbox up to its next cursor. -/
structure PageOf (ctx : LoftContext) (store : LoftStore H) (recipient : Bytes32) (cursor : ℕ)
    (response : FetchResponse) (rows : List (EventRow H)) : Prop where
  wraps : List.Forall₂ (fun row wrap => ctx.json.readWrap row.blob = some wrap) rows response.events
  sorted : rows.Pairwise fun a b => a.cursor < b.cursor
  mem : ∀ row ∈ rows, row ∈ store.events.rows ∧ row.recipient = recipient ∧
    cursor < row.cursor ∧ row.cursor ≤ response.nextCursor
  next : response.nextCursor = cursor ∨ ∃ row ∈ rows, response.nextCursor = row.cursor
  complete : ∀ row ∈ store.events.rows, row.recipient = recipient → cursor < row.cursor →
    row ∈ rows ∨ response.more = true ∧ response.nextCursor < row.cursor

theorem fetch_eq_ok {ctx : LoftContext} {limit : ℕ}
    {events : List (ℕ × Wrap)} : store.fetch ctx recipient cursor limit = .ok events ↔
      cursor ≤ i64Max ∧ limit ≤ i64Max ∧ List.Forall₂ (fun row event => row.cursor = event.1 ∧
          ctx.json.readWrap row.blob = some event.2)
          ((mailbox store recipient cursor).take limit) events := by
  have hrow : ∀ (row : EventRow H) (event : ℕ × Wrap),
      (okOr (ctx.json.readWrap row.blob) LoftError.serialization >>= fun wrap =>
        pure (row.cursor, wrap)) = .ok event ↔
        row.cursor = event.1 ∧ ctx.json.readWrap row.blob = some event.2 := by
    intro row event
    simp only [ok_iff, Prod.ext_iff]
    constructor
    · rintro ⟨wrap, hr, hc, rfl⟩
      exact ⟨hc, hr⟩
    · rintro ⟨hc, hr⟩
      exact ⟨event.2, hr, hc, rfl⟩
  simp only [LoftStore.fetch, bind_eq_ok (x := Loft.toI64 _), toI64_eq_ok, mapM_eq_ok, hrow]
  constructor
  · rintro ⟨_, ⟨hc, rfl⟩, _, ⟨hl, rfl⟩, he⟩
    exact ⟨hc, hl, he⟩
  · rintro ⟨hc, hl, he⟩
    exact ⟨cursor, ⟨hc, rfl⟩, limit, ⟨hl, rfl⟩, he⟩

theorem pageOf_of_fetchResponse
    (h : fetchResponse ctx config store recipient cursor requested = .ok response) :
    ∃ rows, PageOf ctx.toLoftContext store recipient cursor response rows ∧
      rows.length ≤ config.pageLimit requested := by
  simp only [fetchResponse, ok_iff, fetch_eq_ok] at h
  obtain ⟨events, ⟨-, -, he⟩, rfl⟩ := h
  have hs := pairwise_mailbox store recipient cursor
  have hbox : ∀ row, row ∈ mailbox store recipient cursor ↔ _ := fun _ => mem_mailbox
  generalize config.pageLimit requested = limit at he ⊢
  generalize mailbox store recipient cursor = box at he hs hbox
  have hp := forall₂_take limit he
  rw [take_take, Nat.min_eq_left (Nat.le_succ limit)] at hp
  -- the cursors of the page are those of its rows
  have hc : (events.take limit).map Prod.fst = (box.take limit).map EventRow.cursor := by
    have hf := hp.imp fun _ _ h => h.1
    rw [← forall₂_map_right_iff, ← forall₂_map_left_iff, forall₂_eq_eq_eq] at hf
    exact hf.symm
  have hl : ((events.take limit).getLast?.map Prod.fst).getD cursor =
      ((box.take limit).getLast?.map EventRow.cursor).getD cursor := by
    rw [← getLast?_map, hc, getLast?_map]
  have hlen : events.length = min (limit + 1) box.length := by
    rw [← he.length_eq, length_take]
  have ht := hs.sublist (take_sublist limit _)
  refine ⟨box.take limit, ⟨?_, ht, ?_, ?_, ?_⟩, length_take_le _ _⟩
  · rw [forall₂_map_right_iff]
    exact hp.imp fun _ _ h => h.2
  · intro row hrow
    obtain ⟨hm, hr, ha⟩ := (hbox row).mp (mem_of_mem_take hrow)
    refine ⟨hm, hr, ha, ?_⟩
    rw [hl]
    cases hrows : (box.take limit).getLast? with
    | none => simp [getLast?_eq_none_iff.mp hrows] at hrow
    | some => exact cursor_le_of_getLast ht hrow hrows
  · rw [hl]
    cases hrows : (box.take limit).getLast? with
    | none => exact .inl rfl
    | some last => exact .inr ⟨last, mem_of_getLast? hrows, rfl⟩
  · intro row hm hr ha
    have hrow := (hbox row).mpr ⟨hm, hr, ha⟩
    rw [← take_append_drop limit box, mem_append] at hrow
    -- a row behind the page is behind the last of the page
    refine hrow.imp id fun hd => ?_
    have hlong : limit < box.length := by
      by_contra hshort
      rw [drop_eq_nil_of_le (not_lt.mp hshort)] at hd
      cases hd
    refine ⟨by simp only [decide_eq_true_eq]; omega, ?_⟩
    rw [hl]
    cases hrows : (box.take limit).getLast? with
    | none => exact ha
    | some last =>
      rw [← take_append_drop limit box, pairwise_append] at hs
      exact hs.2.2 last (mem_of_getLast? hrows) row hd

/-! ## The size of a response -/

/-- The text of a page around the texts of its events. -/
theorem FetchResponse.length_toJson {attribution : AttributionBlock → Bytes} {blobs : List Bytes}
    (hb : response.events.mapM (Wrap.toJson attribution) = some blobs)
    (hc : response.nextCursor ≤ i64Max) :
    ∃ encoded, response.toJson attribution = some encoded ∧
      encoded.length ≤ (blobs.map length).sum + (blobs.length - 1) + 60 := by
  refine ⟨_, by rw [FetchResponse.toJson, hb]; rfl, ?_⟩
  have hn : (Json.number response.nextCursor).length ≤ 19 :=
    length_decimal_le (by decide) (hc.trans_lt (by decide))
  have hm : (Json.boolean response.more).length ≤ 5 := by cases response.more <;> decide
  rw [Json.length_object]
  simp only [map_cons, map_nil, sum_cons, sum_nil, Json.length_member,
    Json.length_array, length_cons, length_nil, ascii, String.reduceToList]
  omega

theorem PageOf.blobs {ctx : LoftContext} (hreads : ReadsWraps ctx)
    (hw : HoldsWraps ctx config store) (hp : PageOf ctx store recipient cursor response rows) :
    response.events.mapM (Wrap.toJson ctx.json.attribution) = some (rows.map EventRow.blob) := by
  rw [mapM_eq_some, forall₂_map_right_iff]
  have hheld : ∀ row ∈ rows, ∃ wrap, HoldsWrap ctx config row wrap :=
    fun row hrow => hw row (hp.mem row hrow).1
  refine (((forall₂_and_left _ _).mpr ⟨hheld, hp.wraps⟩).imp ?_).flip
  rintro row wrap ⟨⟨held, hh⟩, hr⟩
  rw [hreads held row.blob hh.isPublic hh.text] at hr
  cases hr
  exact hh.text

/-- With room for an empty page every page fits. -/
theorem PageOf.exists_encodeResponse (hb : PageBounds config)
    (hroom : 60 ≤ config.maxFetchResponseBytes) (hr : ReadsWraps ctx.toLoftContext)
    (hw : HoldsWraps ctx.toLoftContext config store)
    (hp : PageOf ctx.toLoftContext store recipient cursor response rows)
    (hl : rows.length ≤ config.pageLimit requested) (hc : response.nextCursor ≤ i64Max) :
    ∃ encoded, encodeResponse ctx config response = .ok encoded := by
  obtain ⟨encoded, he, hs⟩ := FetchResponse.length_toJson (hp.blobs hr hw) hc
  refine ⟨encoded, ?_⟩
  have hf : encoded.length ≤ config.maxFetchResponseBytes := by
    obtain ⟨hm, hspare⟩ := hb.pageLimit requested
    rw [map_map, length_map] at hs
    have hsum : (rows.map (length ∘ EventRow.blob)).sum ≤ rows.length * config.maxEventBytes := by
      have hbytes : ∀ n ∈ rows.map (length ∘ EventRow.blob), n ≤ config.maxEventBytes := by
        intro n hn
        obtain ⟨row, hrow, rfl⟩ := mem_map.mp hn
        obtain ⟨wrap, hh⟩ := hw row (hp.mem row hrow).1
        exact hh.length_le
      simpa using sum_le_card_nsmul _ _ hbytes
    cases rows with
    | nil =>
      simp only [map_nil, sum_nil, length_nil] at hs
      omega
    | cons row rows =>
      -- one event is longer than everything around the events
      have hevent : 559 ≤ config.maxEventBytes := by
        obtain ⟨wrap, hh⟩ := hw row (hp.mem row mem_cons_self).1
        exact (Wrap.le_length_toJson hh.isPublic hh.text).trans hh.length_le
      have hle := (Nat.mul_le_mul_right _ (Nat.succ_le_succ hl)).trans hspare
      rw [Nat.succ_mul] at hle
      omega
  rw [encodeResponse, he, okOr_some, ok_bind, if_neg (not_lt.mpr hf)]
  rfl

/-! ## Whole walks -/

theorem exists_fetchResponse (hb : PageBounds config) (hr : ReadsWraps ctx.toLoftContext)
    (hw : HoldsWraps ctx.toLoftContext config store) (recipient : Bytes32)
    (hc : cursor ≤ i64Max) (requested : Option ℕ) :
    ∃ response, fetchResponse ctx config store recipient cursor requested = .ok response := by
  have hm := (hb.pageLimit requested).1
  have hread : ∀ row ∈ (mailbox store recipient cursor).take (config.pageLimit requested + 1),
      ∃ event : ℕ × Wrap, row.cursor = event.1 ∧ ctx.json.readWrap row.blob = some event.2 := by
    intro row hrow
    obtain ⟨wrap, hh⟩ := hw row (mem_mailbox.mp (mem_of_mem_take hrow)).1
    exact ⟨(row.cursor, wrap), rfl, hr wrap row.blob hh.isPublic hh.text⟩
  obtain ⟨events, he⟩ := exists_forall₂ hread
  have hl : config.pageLimit requested + 1 ≤ i64Max := by
    unfold i64Max
    omega
  rw [fetchResponse, fetch_eq_ok.mpr ⟨hc, hl, he⟩]
  exact ⟨_, rfl⟩

theorem PageOf.nextCursor_le {ctx : LoftContext} (hw : HoldsWraps ctx config store)
    (hc : cursor ≤ i64Max) (hp : PageOf ctx store recipient cursor response rows) :
    response.nextCursor ≤ i64Max := by
  obtain hn | ⟨row, hr, hn⟩ := hp.next
  · rw [hn]
    exact hc
  · obtain ⟨wrap, hh⟩ := hw row (hp.mem row hr).1
    rw [hn]
    exact hh.cursor_le

end Pages

/-- A client with a cursor in the column's range is answered to the end. -/
theorem exists_walk (hb : PageBounds config) (hroom : 60 ≤ config.maxFetchResponseBytes)
    (hreads : ReadsWraps ctx.toLoftContext) (hw : HoldsWraps ctx.toLoftContext config store)
    (recipient : Bytes32) (hc : cursor ≤ i64Max) (requests : List PageRequest) :
    ∃ pages, walk ctx config recipient store cursor requests = .ok pages := by
  induction requests generalizing store cursor with
  | nil => exact ⟨[], rfl⟩
  | cons request _ ih =>
    have hs := hw.serve request.before
    obtain ⟨response, hr⟩ := exists_fetchResponse hb hreads hs recipient hc request.limit
    obtain ⟨rows, hp, hl⟩ := pageOf_of_fetchResponse hr
    have hn := hp.nextCursor_le hs hc
    obtain ⟨encoded, he⟩ := hp.exists_encodeResponse hb hroom hreads hs hl hn
    simp only [walk, hr, he, ok_bind]
    by_cases hm : response.more = true
    · obtain ⟨rest, hrest⟩ := ih hs hn
      rw [if_pos hm, hrest]
      exact ⟨_, rfl⟩
    · rw [if_neg hm]
      exact ⟨_, rfl⟩

/-- The rows a walk delivers: in order, each once, all of the mailbox and after the cursor,
and every one that stood in the store at every page. -/
structure Delivers (ctx : LoftContext) (recipient : Bytes32) (cursor : ℕ)
    (pages : List (LoftStore H × FetchResponse)) (rows : List (EventRow H)) : Prop where
  wraps : List.Forall₂ (fun row wrap => ctx.json.readWrap row.blob = some wrap) rows
    (received pages)
  sorted : rows.Pairwise fun a b => a.cursor < b.cursor
  mem : ∀ row ∈ rows, row.recipient = recipient ∧ cursor < row.cursor ∧
    ∃ page ∈ pages, row ∈ page.1.events.rows
  complete : finished pages → ∀ row, row.recipient = recipient → cursor < row.cursor →
    (∀ page ∈ pages, row ∈ page.1.events.rows) → row ∈ rows

variable {pages : List (LoftStore H × FetchResponse)}

omit [Sha256 H] [HashBytes H] [DecidableEq H] in
theorem Delivers.cons {ctx : LoftContext} {rest : List (EventRow H)}
    (hp : PageOf ctx store recipient cursor response rows) (hmore : response.more = true)
    (hrest : Delivers ctx recipient response.nextCursor pages rest) :
    Delivers ctx recipient cursor ((store, response) :: pages) (rows ++ rest) := by
  have hn : cursor ≤ response.nextCursor := by
    obtain hn | ⟨row, hrow, hn⟩ := hp.next
    · exact hn.ge
    · rw [hn]
      exact (hp.mem row hrow).2.2.1.le
  refine ⟨?_, ?_, ?_, ?_⟩
  · exact rel_append hp.wraps hrest.wraps
  · refine pairwise_append.mpr ⟨hp.sorted, hrest.sorted, fun a ha b hb => ?_⟩
    exact (hp.mem a ha).2.2.2.trans_lt (hrest.mem b hb).2.1
  · intro row hrow
    obtain hrow | hrow := mem_append.mp hrow
    · obtain ⟨hm, hr, hafter, -⟩ := hp.mem row hrow
      exact ⟨hr, hafter, _, mem_cons_self, hm⟩
    · obtain ⟨hr, hafter, page, hpages, hm⟩ := hrest.mem row hrow
      exact ⟨hr, hn.trans_lt hafter, page, mem_cons_of_mem _ hpages, hm⟩
  · intro hf row hr hafter hpre
    obtain hrow | ⟨-, hbeh⟩ := hp.complete row (hpre _ mem_cons_self) hr hafter
    · exact mem_append_left rest hrow
    · refine mem_append_right rows (hrest.complete ?_ row hr hbeh
        fun page hpages => hpre page (mem_cons_of_mem _ hpages))
      obtain ⟨last, hl, he⟩ := hf
      cases pages with
      | nil =>
        cases hl
        exact absurd (hmore.symm.trans he) (by decide)
      | cons => exact ⟨last, by simpa using hl, he⟩

theorem delivers_of_walk {requests : List PageRequest}
    (h : walk ctx config recipient store cursor requests = .ok pages) :
    ∃ rows, Delivers ctx.toLoftContext recipient cursor pages rows := by
  induction requests generalizing store cursor pages with
  | nil =>
    cases h
    refine ⟨[], .nil, .nil, (nofun), ?_⟩
    rintro ⟨_, ⟨⟩, -⟩
  | cons _ _ ih =>
    simp only [walk, ok_iff] at h
    obtain ⟨response, hres, -, -, h⟩ := h
    obtain ⟨rows, hp, -⟩ := pageOf_of_fetchResponse hres
    by_cases hm : response.more = true
    · simp only [if_pos hm, ok_iff] at h
      obtain ⟨rest, hrest, rfl⟩ := h
      obtain ⟨later, hl⟩ := ih hrest
      exact ⟨rows ++ later, hl.cons hp hm⟩
    · rw [if_neg hm] at h
      cases h
      refine ⟨rows, by simpa [received] using hp.wraps, hp.sorted, ?_, ?_⟩
      · intro row hrow
        obtain ⟨hmem, hr, ha, -⟩ := hp.mem row hrow
        exact ⟨hr, ha, _, mem_singleton_self _, hmem⟩
      · intro _ row hr ha hpre
        obtain hrow | ⟨habs, -⟩ := hp.complete row (hpre _ (mem_singleton_self _)) hr ha
        · exact hrow
        · exact absurd habs hm

/-! ## Configurations -/

/-- No page of the loft is too large for its own limit, a client is answered, and a client
that follows the cursors to the end gets every event that was there all along. -/
structure PagingComplete (H : Type) [Sha256 H] [HashBytes H] [DecidableEq H] (ctx : ServerContext)
    (config : LoftConfig) : Prop where
  fits : ∀ ops recipient cursor requested response,
    fetchResponse ctx config (serve ctx config (LoftStore.fresh : LoftStore H) ops) recipient cursor
      requested = .ok response → ∃ encoded, encodeResponse ctx config response = .ok encoded
  answers : ∀ ops recipient cursor requests, cursor ≤ i64Max →
    ∃ pages, walk ctx config recipient (serve ctx config (LoftStore.fresh : LoftStore H) ops) cursor
      requests = .ok pages
  delivers : ∀ ops recipient cursor requests pages,
    walk ctx config recipient (serve ctx config (LoftStore.fresh : LoftStore H) ops) cursor
      requests = .ok pages → ∃ rows, Delivers ctx.toLoftContext recipient cursor pages rows

omit [Sha256 H] [HashBytes H] [DecidableEq H] in
theorem HoldsWraps.fresh {ctx : LoftContext} : HoldsWraps ctx config (fresh : LoftStore H) :=
  nofun

/-- The empty page of the greatest cursor needs 60 bytes, and a configuration that has them
serves complete pages. -/
theorem paging_complete_iff (hconfig : validateConfig ctx.prim ctx.urlText config = .ok ())
    (hreads : ReadsWraps ctx.toLoftContext) :
    PagingComplete H ctx config ↔ 60 ≤ config.maxFetchResponseBytes := by
  have hb := pageBounds_of_validateConfig hconfig
  constructor
  · intro hcom
    have hempty : fetchResponse ctx config (fresh : LoftStore H) (Vector.replicate 32 0)
        i64Max none = .ok ⟨[], i64Max, false⟩ := by
      have hlimit : config.pageLimit none + 1 ≤ i64Max := by
        have hmany := (hb.pageLimit none).1
        unfold i64Max
        omega
      have hm : mailbox (fresh : LoftStore H) (Vector.replicate 32 0) i64Max = [] := by
        simp [mailbox, fresh, KeyedTable.empty]
      rw [fetchResponse, fetch_eq_ok.mpr ⟨le_rfl, hlimit, by rw [hm]; exact .nil⟩, ok_bind,
        pure_eq_ok]
      simp
    obtain ⟨encoded, he⟩ := hcom.fits [] _ _ _ _ hempty
    simp only [encodeResponse, FetchResponse.toJson, mapM_nil, ok_iff] at he
    obtain ⟨text, ht, hf, -⟩ := he
    cases ht
    exact not_lt.mp hf
  · intro hroom
    refine ⟨?_, ?_, ?_⟩
    · intro ops recipient cursor requested response hr
      have hs : HoldsWraps ctx.toLoftContext config
          (serve ctx config (fresh : LoftStore H) ops) := HoldsWraps.fresh.serve ops
      obtain ⟨rows, hp, hl⟩ := pageOf_of_fetchResponse hr
      have hc : cursor ≤ i64Max := by
        simp only [fetchResponse, ok_iff, fetch_eq_ok] at hr
        obtain ⟨-, ⟨hc, -⟩, -⟩ := hr
        exact hc
      exact hp.exists_encodeResponse hb hroom hreads hs hl (hp.nextCursor_le hs hc)
    · intro ops recipient cursor requests hc
      exact exists_walk hb hroom hreads (HoldsWraps.fresh.serve ops) recipient hc requests
    · intro ops recipient cursor requests pages hw
      exact delivers_of_walk hw

theorem readsWraps_sample : ReadsWraps SampleLoft.ctx := by
  intro wrap blob hp hb
  exact readPublicWrap_eq_some hp hb

/-- A valid configuration whose limit no response meets. -/
theorem fetch_of_two_byte_limit :
    validateConfig serverCtx.prim serverCtx.urlText
        (SampleLoft.config 1 2) = .ok () ∧
      fetch serverCtx (SampleLoft.config 1 2) (LoftStore.fresh : LoftStore ByteHash)
        fetchRequest 0 = .error (.core .tooLarge) := by
  decide +kernel

theorem paging_complete_of_default_limits :
    PagingComplete ByteHash serverCtx (SampleLoft.config 2097152 8388608) ∧
      (walk serverCtx (SampleLoft.config 2097152 8388608) (key 1)
        (LoftStore.fresh : LoftStore ByteHash) 0
        [⟨[.publish wrapText 5 none], none⟩]).map received = .ok [wrap] :=
  ⟨(paging_complete_iff (by decide +kernel) readsWraps_sample).mpr (by decide), by decide +kernel⟩

end Pigeonpost
