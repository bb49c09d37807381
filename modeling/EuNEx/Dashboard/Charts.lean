import EuNEx.Dashboard.MatchingEngine
import EuNEx.Lib.Candle
import EuNEx.Lib.Machine
import EuNEx.Lib.Table
import Mathlib.Data.List.Induction

/-!
# Charts

`save_trade` and `record_ohlcv` of `dashboard/database.py`, as they are called for the trades of an
order: by the threads of requests, by the simulator and by the bridge, outside of `state_lock`.
`record_ohlcv` looks for the bar of the minute first and then writes it, in two statements, and the
statements of other threads may come in between. An exception ends the request of the thread.
-/

namespace EuNEx.Dashboard

open Machine (run Always)

variable {ι P : Type*}

/-- What a thread does next for the first of its trades. -/
inductive Stage where
  | saveTrade
  /-- the `SELECT` of `record_ohlcv` -/
  | select
  /-- the `UPDATE` of the bar that it has found -/
  | update (bucket : ℕ)
  /-- the `INSERT` of a bar, as it has found none -/
  | insert (bucket : ℕ)
deriving DecidableEq, Repr

/-- A thread in the loop over `matched_trades`. -/
structure Worker (P : Type*) where
  trades : List (Trade P) := []
  stage : Stage := .saveTrade
deriving DecidableEq, Repr

/-- The trade that a thread has saved and not recorded. -/
def Worker.inHand (worker : Worker P) : Option (Trade P) :=
  match worker.stage with
  | .saveTrade => none
  | _ => worker.trades.head?

/-- The tables `trades` and `ohlcv`, and the threads. A bar is that of a symbol and of a bucket. -/
structure Charts (ι P : Type*) [LE P] where
  trades : List (Trade P)
  ohlcv : Table (ℕ × ℕ) (Candle P ℤ)
  threads : ι → Worker P

/-- What there is to see of the threads. -/
inductive ChartEvent (ι P : Type*) where
  | saved (thread : ι) (trade : Trade P)
  | selected (thread : ι) (key : ℕ × ℕ)
  | recorded (thread : ι) (bucket : ℕ) (trade : Trade P)
  /-- an `IntegrityError`: there is a bar now -/
  | refused (thread : ι) (bucket : ℕ) (trade : Trade P)
  /-- the thread has ended, with the trade that was saved and is in no bar -/
  | aborted (thread : ι) (trade : Option (Trade P))
deriving DecidableEq, Repr

/-- What happens to a thread. -/
inductive ChartInput (P : Type*) where
  /-- it has submitted an order, and these are the trades -/
  | matched (trades : List (Trade P))
  /-- its next statement -/
  | next (now : ℕ)
  /-- the database stays locked for too long, or the process ends -/
  | abort

/-- `int(time.time()) // bucket_size * bucket_size`. -/
def bucketOf (now : ℕ) (bucketSize : ℕ := 60) : ℕ := now / bucketSize * bucketSize

namespace Charts

variable [DecidableEq ι] [LinearOrder P]

/-- No rows, and nothing to do. -/
def new : Charts ι P := ⟨[], fun _ => none, fun _ => {}⟩

/-- The thread goes on with this. -/
def goOn (s : Charts ι P) (thread : ι) (worker : Worker P) : Charts ι P :=
  { s with threads := Function.update s.threads thread worker }

lemma goOn_self {s : Charts ι P} {thread : ι} {worker : Worker P} :
    (s.goOn thread worker).threads thread = worker := Function.update_self ..

lemma goOn_of_ne {s : Charts ι P} {thread i : ι} {worker : Worker P} (h : i ≠ thread) :
    (s.goOn thread worker).threads i = s.threads i := Function.update_of_ne h ..

/-- The next statement of a thread: `save_trade`, then the two of `record_ohlcv`. -/
def next (s : Charts ι P) (thread : ι) (now : ℕ) : Charts ι P × List (ChartEvent ι P) :=
  match (s.threads thread).trades with
  | [] => (s, [])
  | t :: ts =>
    match (s.threads thread).stage with
    | .saveTrade =>
      ({ s with trades := s.trades ++ [t] }.goOn thread ⟨t :: ts, .select⟩, [.saved thread t])
    | .select =>
      let key := (t.symbolIdx, bucketOf now)
      let stage := if (s.ohlcv key).isSome then Stage.update key.2 else .insert key.2
      (s.goOn thread ⟨t :: ts, stage⟩, [.selected thread key])
    | .update bucket =>
      let ohlcv := s.ohlcv.modify (t.symbolIdx, bucket) fun row => row.trade t.price t.quantity
      ({ s with ohlcv }.goOn thread ⟨ts, .saveTrade⟩, [.recorded thread bucket t])
    | .insert bucket =>
      match s.ohlcv.insert (t.symbolIdx, bucket) (Candle.single t.price t.quantity) with
      | some ohlcv => ({ s with ohlcv }.goOn thread ⟨ts, .saveTrade⟩, [.recorded thread bucket t])
      | none => (s.goOn thread {}, [.refused thread bucket t])

/-- A thread only takes up the trades of an order when it has none left. -/
def step (s : Charts ι P) (input : ι × ChartInput P) : Charts ι P × List (ChartEvent ι P) :=
  match input.2 with
  | .matched trades =>
    if (s.threads input.1).trades = [] then (s.goOn input.1 { trades }, []) else (s, [])
  | .next now => s.next input.1 now
  | .abort => (s.goOn input.1 {}, [.aborted input.1 (s.threads input.1).inHand])

end Charts

/-! ### What the threads have done -/

def ChartEvent.thread : ChartEvent ι P → ι
  | .saved thread _ | .selected thread _ | .recorded thread _ _ | .refused thread _ _
  | .aborted thread _ => thread

/-- The trades that have been recorded in a bar, by price and quantity. -/
def recordedTrades (key : ℕ × ℕ) (h : List (ChartEvent ι P)) : List (P × ℤ) :=
  h.filterMap fun
    | .recorded _ bucket t =>
      if (t.symbolIdx, bucket) = key then some (t.price, t.quantity) else none
    | _ => none

/-- All trades that have been saved. -/
def savedTrades (h : List (ChartEvent ι P)) : List (Trade P) :=
  h.filterMap fun
    | .saved _ t => some t
    | _ => none

section

variable [DecidableEq ι]

/-- The trade that the event saves, if it is one of the thread. -/
def ChartEvent.savedBy? (thread : ι) : ChartEvent ι P → Option (Trade P)
  | .saved i t => if i = thread then some t else none
  | _ => none

/-- The trade that the event records or loses, if it is one of the thread. -/
def ChartEvent.settledBy? (thread : ι) : ChartEvent ι P → Option (Trade P)
  | .recorded i _ t | .refused i _ t => if i = thread then some t else none
  | .aborted i t => if i = thread then t else none
  | _ => none

/-- The trades that a thread has saved. -/
def savedBy (thread : ι) (h : List (ChartEvent ι P)) : List (Trade P) :=
  h.filterMap (ChartEvent.savedBy? thread)

/-- The trades that a thread has saved and then recorded, or lost. -/
def settledBy (thread : ι) (h : List (ChartEvent ι P)) : List (Trade P) :=
  h.filterMap (ChartEvent.settledBy? thread)

/-- The thread has lost a trade to a bar that was there. -/
def ChartEvent.isRefusal (thread : ι) (key : ℕ × ℕ) : ChartEvent ι P → Bool
  | .refused i bucket t => i = thread ∧ (t.symbolIdx, bucket) = key
  | _ => false

/-- How often that has happened. -/
def refusals (thread : ι) (key : ℕ × ℕ) (h : List (ChartEvent ι P)) : ℕ :=
  h.countP (ChartEvent.isRefusal thread key)

end

/-- The thread has looked for the bar after `before`, and has done nothing since. -/
def Looked (thread : ι) (key : ℕ × ℕ) (before h : List (ChartEvent ι P)) : Prop :=
  ∃ after, h = before ++ .selected thread key :: after ∧ ∀ e ∈ after, e.thread ≠ thread

/-- A write fails exactly if there was no bar when the thread looked, and there is one now. -/
def ChartEvent.Explained (h : List (ChartEvent ι P)) : ChartEvent ι P → Prop
  | .recorded thread bucket t => ∃ before, Looked thread (t.symbolIdx, bucket) before h ∧
    (recordedTrades (t.symbolIdx, bucket) before ≠ [] ∨
      recordedTrades (t.symbolIdx, bucket) h = [])
  | .refused thread bucket t => ∃ before, Looked thread (t.symbolIdx, bucket) before h ∧
    recordedTrades (t.symbolIdx, bucket) before = [] ∧
      recordedTrades (t.symbolIdx, bucket) h ≠ []
  | _ => True

/-- The row of a bar sums up these trades. There is none without trades. -/
def IsBar [LinearOrder P] (row : Option (Candle P ℤ)) (trades : List (P × ℤ)) : Prop :=
  match row with
  | none => trades = []
  | some candle => candle.Shows trades

section

variable {thread : ι} {key : ℕ × ℕ} {before h h' : List (ChartEvent ι P)} {e : ChartEvent ι P}

lemma recordedTrades_append :
    recordedTrades key (h ++ h') = recordedTrades key h ++ recordedTrades key h' :=
  List.filterMap_append ..

lemma looked_snoc : Looked thread key h (h ++ [.selected thread key]) :=
  ⟨[], rfl, by simp⟩

lemma Looked.snoc (hl : Looked thread key before h) (he : e.thread ≠ thread) :
    Looked thread key before (h ++ [e]) := by
  obtain ⟨after, rfl, hafter⟩ := hl
  refine ⟨after ++ [e], by simp, fun e' he' => ?_⟩
  rcases List.mem_append.mp he' with he' | he'
  · exact hafter e' he'
  · rwa [List.mem_singleton.mp he']

/-- What a thread has done other than looking, it did before it looked. -/
lemma Looked.done (hl : Looked e.thread key before (h ++ e :: h'))
    (he : e ≠ .selected e.thread key) : h ++ [e] <+: before := by
  obtain ⟨after, heq, hafter⟩ := hl
  rcases List.append_eq_append_iff.mp heq with ⟨as, rfl, hrest⟩ | ⟨bs, rfl, hrest⟩
  · cases as with
    | nil => exact absurd (List.cons.inj hrest).1 he
    | cons a as =>
      rw [(List.cons.inj hrest).1]
      exact ⟨as, by simp⟩
  · cases bs with
    | nil => exact absurd (List.cons.inj hrest).1.symm he
    | cons b bs =>
      rw [List.cons_append, List.cons.injEq] at hrest
      exact absurd rfl (hafter e (by simp [hrest.2]))

lemma IsBar.isSome_iff [LinearOrder P] {row : Option (Candle P ℤ)} {trades : List (P × ℤ)}
    (hbar : IsBar row trades) : row.isSome = true ↔ trades ≠ [] := by
  cases row with
  | none =>
    have htrades : trades = [] := hbar
    simp [htrades]
  | some candle =>
    have hshows : candle.Shows trades := hbar
    simp [hshows.ne_nil]

lemma isBar_record [LinearOrder P] {t : Trade P} {bucket : ℕ}
    {ohlcv : Table (ℕ × ℕ) (Candle P ℤ)} {row : Option (Candle P ℤ)}
    (hbars : ∀ key, IsBar (ohlcv key) (recordedTrades key h))
    (hrow : IsBar row (recordedTrades (t.symbolIdx, bucket) h ++ [(t.price, t.quantity)]))
    (key : ℕ × ℕ) : IsBar (Function.update ohlcv (t.symbolIdx, bucket) row key)
      (recordedTrades key (h ++ [.recorded thread bucket t])) := by
  rw [recordedTrades_append]
  by_cases hkey : key = (t.symbolIdx, bucket)
  · rw [hkey, Function.update_self]
    simpa [recordedTrades] using hrow
  · rw [Function.update_of_ne hkey]
    simpa [recordedTrades, Ne.symm hkey] using hbars key

end

section

variable [DecidableEq ι] {thread : ι} {h h' : List (ChartEvent ι P)} {e : ChartEvent ι P}

lemma savedBy_snoc :
    savedBy thread (h ++ [e]) = savedBy thread h ++ (e.savedBy? thread).toList := by
  rw [savedBy, savedBy, List.filterMap_append]
  cases he : e.savedBy? thread <;> simp [he]

lemma settledBy_snoc :
    settledBy thread (h ++ [e]) = settledBy thread h ++ (e.settledBy? thread).toList := by
  rw [settledBy, settledBy, List.filterMap_append]
  cases he : e.settledBy? thread <;> simp [he]

lemma savedBy_snoc_of_ne (he : e.thread ≠ thread) :
    savedBy thread (h ++ [e]) = savedBy thread h := by
  rw [savedBy_snoc]
  cases e <;> simp_all [ChartEvent.thread, ChartEvent.savedBy?]

lemma settledBy_snoc_of_ne (he : e.thread ≠ thread) :
    settledBy thread (h ++ [e]) = settledBy thread h := by
  rw [settledBy_snoc]
  cases e <;> simp_all [ChartEvent.thread, ChartEvent.settledBy?]

end

/-- A thread that is about to write goes by what it has found. -/
def Worker.Informed (worker : Worker P) (thread : ι) (h : List (ChartEvent ι P)) : Prop :=
  ∀ t ∈ worker.trades.head?, match worker.stage with
    | .update bucket => ∃ before, Looked thread (t.symbolIdx, bucket) before h ∧
      recordedTrades (t.symbolIdx, bucket) before ≠ []
    | .insert bucket => ∃ before, Looked thread (t.symbolIdx, bucket) before h ∧
      recordedTrades (t.symbolIdx, bucket) before = []
    | _ => True

lemma Worker.Informed.snoc {worker : Worker P} {thread : ι} {h : List (ChartEvent ι P)}
    {e : ChartEvent ι P} (hw : worker.Informed thread h) (he : e.thread ≠ thread) :
    worker.Informed thread (h ++ [e]) := by
  intro t ht
  have := hw t ht
  cases hstage : worker.stage with
  | saveTrade => trivial
  | select => trivial
  | update bucket =>
    rw [hstage] at this
    obtain ⟨before, hl, hbefore⟩ := this
    exact ⟨before, hl.snoc he, hbefore⟩
  | insert bucket =>
    rw [hstage] at this
    obtain ⟨before, hl, hbefore⟩ := this
    exact ⟨before, hl.snoc he, hbefore⟩

namespace Charts

variable [DecidableEq ι] [LinearOrder P]

/-- The tables and the threads are what this history has made of them. -/
structure Kept (s : Charts ι P) (h : List (ChartEvent ι P)) : Prop where
  trades : s.trades = savedTrades h
  bars : ∀ key, IsBar (s.ohlcv key) (recordedTrades key h)
  informed : ∀ thread, (s.threads thread).Informed thread h
  inHand : ∀ thread, savedBy thread h
    = settledBy thread h ++ (s.threads thread).inHand.toList
  explained : Always ChartEvent.Explained h

section

variable {s s' : Charts ι P} {h : List (ChartEvent ι P)} {e : ChartEvent ι P} {thread : ι}
  {worker : Worker P} {t : Trade P} {ts : List (Trade P)} {bucket : ℕ}

/-- What a thread does is seen by the others in the tables only. -/
lemma Kept.act (hk : s.Kept h) (he : e.thread = thread)
    (hthreads : s'.threads = Function.update s.threads thread worker)
    (htrades : s'.trades = savedTrades (h ++ [e]))
    (hbars : ∀ key, IsBar (s'.ohlcv key) (recordedTrades key (h ++ [e])))
    (hinformed : worker.Informed thread (h ++ [e]))
    (hinHand : savedBy thread (h ++ [e])
      = settledBy thread (h ++ [e]) ++ worker.inHand.toList)
    (hexplained : e.Explained h) : s'.Kept (h ++ [e]) where
  trades := htrades
  bars := hbars
  informed i := by
    rw [hthreads]
    by_cases hi : i = thread
    · rw [hi, Function.update_self]
      exact hinformed
    · rw [Function.update_of_ne hi]
      exact (hk.informed i).snoc (he.symm ▸ Ne.symm hi)
  inHand i := by
    rw [hthreads]
    by_cases hi : i = thread
    · rw [hi, Function.update_self]
      exact hinHand
    · rw [Function.update_of_ne hi]
      have hsaved : savedBy i (h ++ [e]) = savedBy i h := savedBy_snoc_of_ne (he.symm ▸ Ne.symm hi)
      have hsettled : settledBy i (h ++ [e]) = settledBy i h :=
        settledBy_snoc_of_ne (he.symm ▸ Ne.symm hi)
      rw [hsaved, hsettled]
      exact hk.inHand i
  explained := Machine.always_snoc.mpr ⟨hk.explained, hexplained⟩

lemma Kept.next (hk : s.Kept h) (now : ℕ) :
    (s.next thread now).1.Kept (h ++ (s.next thread now).2) := by
  have hknown := hk.informed thread
  have hhand := hk.inHand thread
  cases htrades : (s.threads thread).trades with
  | nil => simpa [Charts.next, htrades] using hk
  | cons t ts =>
    rw [Worker.Informed, htrades] at hknown
    cases hstage : (s.threads thread).stage with
    | saveTrade =>
      simp only [Charts.next, htrades, hstage]
      simp only [Worker.inHand, hstage, Option.toList_none, List.append_nil] at hhand
      apply hk.act rfl rfl
      case htrades => simp [goOn, hk.trades, savedTrades]
      case hbars => simpa [goOn, recordedTrades] using hk.bars
      case hinformed => simp [Worker.Informed]
      case hinHand =>
        simpa [savedBy_snoc, settledBy_snoc, ChartEvent.savedBy?, ChartEvent.settledBy?,
          ChartEvent.thread, Worker.inHand] using hhand
      case hexplained => trivial
    | select =>
      simp only [Charts.next, htrades, hstage]
      simp only [Worker.inHand, hstage, htrades] at hhand
      have hsome := (hk.bars (t.symbolIdx, bucketOf now)).isSome_iff
      apply hk.act rfl rfl
      case htrades => simp [goOn, hk.trades, savedTrades]
      case hbars => simpa [goOn, recordedTrades] using hk.bars
      case hinformed =>
        rintro _ ⟨⟩
        split_ifs with hrow
        · exact ⟨h, looked_snoc, hsome.mp hrow⟩
        · exact ⟨h, looked_snoc, not_not.mp fun hne => hrow (hsome.mpr hne)⟩
      case hinHand =>
        split_ifs with hrow <;>
          simpa [savedBy_snoc, settledBy_snoc, ChartEvent.savedBy?, ChartEvent.settledBy?,
          ChartEvent.thread, Worker.inHand] using hhand
      case hexplained => trivial
    | update bucket =>
      rw [hstage] at hknown
      obtain ⟨before, hl, hbefore⟩ := hknown t rfl
      simp only [Charts.next, htrades, hstage]
      simp only [Worker.inHand, hstage, htrades] at hhand
      have hne : recordedTrades (t.symbolIdx, bucket) h ≠ [] := by
        obtain ⟨after, rfl, -⟩ := hl
        rw [recordedTrades_append]
        simp [hbefore]
      apply hk.act rfl rfl
      case htrades => simp [goOn, hk.trades, savedTrades]
      case hbars =>
        apply isBar_record hk.bars
        have hbar := hk.bars (t.symbolIdx, bucket)
        obtain ⟨row, hrow⟩ := Option.isSome_iff_exists.mp (hbar.isSome_iff.mpr hne)
        rw [hrow] at hbar ⊢
        exact Candle.Shows.trade hbar
      case hinformed => simp [Worker.Informed]
      case hinHand =>
        simpa [savedBy_snoc, settledBy_snoc, ChartEvent.savedBy?, ChartEvent.settledBy?,
          ChartEvent.thread, Worker.inHand] using hhand
      case hexplained => exact ⟨before, hl, Or.inl hbefore⟩
    | insert bucket =>
      rw [hstage] at hknown
      obtain ⟨before, hl, hbefore⟩ := hknown t rfl
      simp only [Worker.inHand, hstage, htrades] at hhand
      have hbar := hk.bars (t.symbolIdx, bucket)
      cases hrow : s.ohlcv (t.symbolIdx, bucket) with
      | none =>
        have hnone : recordedTrades (t.symbolIdx, bucket) h = [] := by
          rw [hrow] at hbar
          exact hbar
        simp only [Charts.next, htrades, hstage, Table.insert_of_none hrow]
        apply hk.act rfl rfl
        case htrades => simp [goOn, hk.trades, savedTrades]
        case hbars =>
          apply isBar_record hk.bars
          rw [hnone]
          exact Candle.shows_single
        case hinformed => simp [Worker.Informed]
        case hinHand =>
          simpa [savedBy_snoc, settledBy_snoc, ChartEvent.savedBy?, ChartEvent.settledBy?,
          ChartEvent.thread, Worker.inHand] using hhand
        case hexplained => exact ⟨before, hl, Or.inr hnone⟩
      | some row =>
        have hsome : recordedTrades (t.symbolIdx, bucket) h ≠ [] := by
          apply hbar.isSome_iff.mp
          simp [hrow]
        simp only [Charts.next, htrades, hstage, Table.insert_of_some hrow]
        apply hk.act rfl rfl
        case htrades => simp [goOn, hk.trades, savedTrades]
        case hbars => simpa [goOn, recordedTrades] using hk.bars
        case hinformed => simp [Worker.Informed]
        case hinHand =>
          simpa [savedBy_snoc, settledBy_snoc, ChartEvent.savedBy?, ChartEvent.settledBy?,
          ChartEvent.thread, Worker.inHand] using hhand
        case hexplained => exact ⟨before, hl, hbefore, hsome⟩

lemma Kept.step (hk : s.Kept h) (input : ι × ChartInput P) :
    (s.step input).1.Kept (h ++ (s.step input).2) := by
  obtain ⟨i, input⟩ := input
  cases input with
  | matched trades =>
    by_cases hidle : (s.threads i).trades = []
    · simp only [Charts.step, hidle, if_true, List.append_nil]
      refine ⟨hk.trades, hk.bars, fun j => ?_, fun j => ?_, hk.explained⟩
      · by_cases hj : j = i
        · rw [hj, goOn_self]
          exact fun t _ => trivial
        · rw [goOn_of_ne hj]
          exact hk.informed j
      · by_cases hj : j = i
        · have hhand : (s.threads i).inHand = none := by
            rw [Worker.inHand, hidle]
            cases (s.threads i).stage <;> rfl
          rw [hj, goOn_self, hk.inHand i, hhand]
          rfl
        · rw [goOn_of_ne hj]
          exact hk.inHand j
    · simpa [Charts.step, hidle] using hk
  | next now => exact hk.next now
  | abort =>
    have hhand := hk.inHand i
    simp only [Charts.step]
    apply hk.act rfl rfl
    case htrades => simp [goOn, hk.trades, savedTrades]
    case hbars => simpa [goOn, recordedTrades] using hk.bars
    case hinformed => simp [Worker.Informed]
    case hinHand =>
      simpa [savedBy_snoc, settledBy_snoc, ChartEvent.savedBy?, ChartEvent.settledBy?,
        ChartEvent.thread, Worker.inHand] using hhand
    case hexplained => trivial

lemma kept_new : (new : Charts ι P).Kept [] where
  trades := rfl
  bars _ := rfl
  informed _ := by simp [new, Worker.Informed]
  inHand _ := rfl
  explained := Machine.always_nil

lemma run_kept (inputs : List (ι × ChartInput P)) :
    (run step new inputs).1.Kept (run step (new : Charts ι P) inputs).2 :=
  Machine.run_induction (h := []) (fun _ _ i _ hk => hk.step i)
    (Machine.along_of_forall (A := fun _ => True) (by simp)) kept_new

end

end Charts

/-! ### Whole runs -/

section

variable [DecidableEq ι] {thread : ι} {key : ℕ × ℕ} {h : List (ChartEvent ι P)}
  {e : ChartEvent ι P}

lemma ChartEvent.of_isRefusal (he : e.isRefusal thread key) :
    ∃ bucket t, e = .refused thread bucket t ∧ (t.symbolIdx, bucket) = key := by
  cases e with
  | refused i bucket t =>
    obtain ⟨rfl, hkey⟩ := of_decide_eq_true he
    exact ⟨bucket, t, rfl, hkey⟩
  | _ => cases he

/-- A thread that has lost a trade finds the bar from then on. -/
lemma refusals_le_one (hx : Always ChartEvent.Explained h) : refusals thread key h ≤ 1 := by
  induction h using List.reverseRecOn with
  | nil => exact Nat.zero_le 1
  | append_singleton h e ih =>
    obtain ⟨hh, he⟩ := Machine.always_snoc.mp hx
    have hcount : refusals thread key (h ++ [e])
        = refusals thread key h + refusals thread key [e] := List.countP_append ..
    by_cases hrefused : e.isRefusal thread key
    · obtain ⟨bucket, t, rfl, rfl⟩ := ChartEvent.of_isRefusal hrefused
      obtain ⟨before, hl, hbefore, -⟩ := he
      have hnone : refusals thread (t.symbolIdx, bucket) h = 0 := by
        apply List.countP_eq_zero.mpr
        intro e' he' hrefused'
        obtain ⟨bucket', t', rfl, hkey⟩ := ChartEvent.of_isRefusal hrefused'
        obtain ⟨pre, post, rfl⟩ := List.append_of_mem he'
        obtain ⟨-, -, -, hpre⟩ := hh pre _ post rfl
        obtain ⟨rest, rfl⟩ := Looked.done hl (by simp)
        rw [List.append_assoc, recordedTrades_append, ← hkey] at hbefore
        exact hpre (List.append_eq_nil_iff.mp hbefore).1
      rw [hcount, hnone, zero_add]
      exact List.countP_le_length
    · have hnone : refusals thread key [e] = 0 := by
        apply List.countP_eq_zero.mpr
        simpa using hrefused
      rw [hcount, hnone]
      exact ih hh

end

namespace Charts

variable [DecidableEq ι] [LinearOrder P]

/-- Two threads look for the same bar before either writes it. -/
example :
    let t : Trade ℤ := ⟨1, 1, 154, 10, 1000, 1001⟩
    let matched := [(true, ChartInput.matched [t]), (false, .matched [t])]
    let both := [(true, ChartInput.next 61), (false, .next 62)]
    (run step (new : Charts Bool ℤ) (matched ++ both ++ both ++ both)).2
      = [.saved true t, .saved false t, .selected true (1, 60), .selected false (1, 60),
        .recorded true 60 t, .refused false 60 t] := by decide

end Charts

end EuNEx.Dashboard
