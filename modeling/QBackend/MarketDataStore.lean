import QBackend.ExecutionDomain
import QBackend.KeyedTables
import QBackend.OrderedSeries

/-!
# The local OHLCV store and the reads of the market data service

`local_store.py`, `coverage.py`, `routing.py` and `MarketDataService.get_ohlcv`. The parquet files
of one series, a file for each year, are one table in the order of time; a write goes through the
files of its years in order and may fail in between. The store keeps naive times, and callers pass
bounds with an offset or without. The gateway answers with the bars of the range it is asked for or
fails.
-/

namespace QBackend.MarketData

open Execution (Time)
open KeyedTables OrderedSeries

/-- A candle: its time, and the prices and volumes that no function here reads. -/
structure OHLCV (Quote : Type) where
  time : Time
  quote : Quote
  deriving DecidableEq, Repr

section Store

variable {Quote : Type}

/-! ## The store -/

structure CatalogEntry where
  symbol : String
  timeframe : String
  start : Time
  stop : Time
  rows : ℕ
  deriving DecidableEq, Repr

/-- The tables by directory and the catalog of the series by symbol and timeframe. -/
structure LocalStore (Quote : Type) where
  series : String × String → List (OHLCV Quote) := fun _ => []
  catalog : List CatalogEntry := []

/-- `re.sub(r"[^\w.$-]+", "_", symbol)` on characters; the flag says that the last one went. -/
def slugChars (isWord : Char → Bool) : Bool → List Char → List Char
  | _, [] => []
  | replaced, c :: cs =>
    if isWord c || c = '.' || c = '$' || c = '-' then c :: slugChars isWord false cs
    else if replaced then slugChars isWord true cs
    else '_' :: slugChars isWord true cs

def slugSymbol (isWord : Char → Bool) (symbol : String) : String :=
  String.ofList (slugChars isWord false symbol.toList)

/-- The directory of a series, below `ohlcv`. -/
def seriesDir (isWord : Char → Bool) (symbol timeframe : String) : String × String :=
  (slugSymbol isWord symbol, timeframe.toUpper)

def CatalogEntry.key (e : CatalogEntry) : String × String := (e.symbol, e.timeframe)

variable (isWord : Char → Bool) (store : LocalStore Quote)

def summarizeSeries (symbol timeframe : String) : Option CatalogEntry :=
  let bars := store.series (seriesDir isWord symbol timeframe)
  match (bars.map OHLCV.time).min?, (bars.map OHLCV.time).max? with
  | some start, some stop =>
    some { symbol, timeframe := timeframe.toUpper, start, stop, rows := bars.length }
  | _, _ => none

def upsertCatalogEntry (entry : CatalogEntry) : LocalStore Quote :=
  { store with catalog := store.catalog.filter (fun e => e.key ≠ entry.key) ++ [entry] }

def refreshCatalog (symbol timeframe : String) : LocalStore Quote :=
  match summarizeSeries isWord store symbol timeframe with
  | some entry => upsertCatalogEntry store entry
  | none => store

/-- The bars merged into the table, the last bar of a time kept, and the catalog row renewed. -/
def writeOhlcv (symbol timeframe : String) (bars : List (OHLCV Quote)) : LocalStore Quote :=
  let dir := seriesDir isWord symbol timeframe
  let merged := merge OHLCV.time (store.series dir) bars
  refreshCatalog isWord { store with series := Function.update store.series dir merged }
    symbol timeframe

/-- What a failing write leaves: the files before a time are written, the catalog row is not. -/
def writeBefore (symbol timeframe : String) (bars : List (OHLCV Quote)) (stop : Time) :
    LocalStore Quote :=
  let dir := seriesDir isWord symbol timeframe
  let merged := merge OHLCV.time (store.series dir) (bars.filter (fun bar => bar.time < stop))
  { store with series := Function.update store.series dir merged }

def readOhlcv (symbol timeframe : String) (start stop : Time) : List (OHLCV Quote) :=
  if start > stop then []
  else (store.series (seriesDir isWord symbol timeframe)).filter
    (fun bar => start ≤ bar.time ∧ bar.time ≤ stop)

/-- The catalog row of the series, else what its directory holds. -/
def availableRange (symbol timeframe : String) : Option CatalogEntry :=
  match lookup CatalogEntry.key store.catalog (symbol, timeframe.toUpper) with
  | some entry => some entry
  | none => summarizeSeries isWord store symbol timeframe

/-! ## Coverage -/

inductive ServeFrom where
  | localStore | provider
  deriving DecidableEq, Repr

structure CoveragePlan where
  serveFrom : ServeFrom
  missing : List (Time × Time)

def envelopeCovers (symbol timeframe : String) (start stop : Time) : Bool :=
  match availableRange isWord store symbol timeframe with
  | none => false
  | some range => range.start ≤ start ∧ stop ≤ range.stop

def planOhlcvRead (symbol timeframe : String) (start stop : Time) : CoveragePlan :=
  match availableRange isWord store symbol timeframe with
  | none => ⟨.provider, [(start, stop)]⟩
  | some range =>
    if range.start ≤ start ∧ stop ≤ range.stop then ⟨.localStore, []⟩
    else
      let head := if start < range.start then [(start, range.start)] else []
      let tail := if range.stop < stop then [(range.stop, stop)] else []
      ⟨.provider, head ++ tail⟩

end Store

/-! ## The service -/

inductive DataSource where
  | auto | localOnly | mt5 | remote
  deriving DecidableEq, Repr

inductive Provider where
  | localStore | mt5 | remote
  deriving DecidableEq, Repr

inductive Failure where
  | connectionError (message : String)
  | valueError (message : String)
  | typeError (message : String)
  deriving DecidableEq, Repr

def remoteNotConfigured : String :=
  "data_source is 'remote' but no gateway URL is configured. Set " ++
    "Q_MT5_GATEWAY_URL (or the 'remote_gateway_url' runtime-config key) or switch " ++
    "to 'auto'/'local'."

def mt5NotInstalled : String :=
  "data_source is 'mt5' but MetaTrader5 is not installed on this " ++
    "platform. Install the Windows MetaTrader5 package or switch to " ++ "'auto'/'local'."

/-- What the routing finds when it asks the terminal and the gateway. -/
structure Availability where
  mt5Selectable : Bool
  remoteAvailable : Bool

def cannotCompare : String := "can't compare offset-naive and offset-aware datetimes"

/-- What a read meets: the configuration, the answers to its probes, the wall clock of the gateway at
an instant, and for each of its calls of the gateway the failure, if any, and the time from which on
the write of the bars fails, if it does. -/
structure ReadEnvironment (Quote : Type) where
  dataSource : DataSource
  first : Availability
  second : Availability
  mt5Supported : Bool := false
  remoteSupported : Bool := true
  mt5Bars : Except Failure (List (OHLCV Quote)) := .error (.connectionError "")
  wallClock : Time → Time := fun instant => instant - 10800000000
  gatewayFails : ℕ → Option Failure := fun _ => none
  writeStops : List (Option Time) := []

structure ReadRequest where
  symbol : String
  timeframe : String
  start : Time
  stop : Time

/-- A `datetime` without an offset, or with one, as the instant. -/
inductive Bound where
  | naive (time : Time)
  | aware (instant : Time)

/-- `to_brasilia_naive`, for the gateway. -/
def Bound.wall (wallClock : Time → Time) : Bound → Time
  | .naive time => time
  | .aware instant => wallClock instant

/-- `_to_naive_utc`, for the store. -/
def Bound.naiveUtc : Bound → Time
  | .naive time => time
  | .aware instant => instant

/-- A request as the callers make it. -/
structure OhlcvRequest where
  symbol : String
  timeframe : String
  start : Bound
  stop : Bound

def OhlcvRequest.naive? (request : OhlcvRequest) : Option ReadRequest :=
  match request.start, request.stop with
  | .naive start, .naive stop => some ⟨request.symbol, request.timeframe, start, stop⟩
  | _, _ => none

def ReadRequest.bounds (request : ReadRequest) : OhlcvRequest :=
  ⟨request.symbol, request.timeframe, .naive request.start, .naive request.stop⟩

/-- The bars that exist, and the store. -/
structure World (Quote : Type) where
  market : String → String → List (OHLCV Quote) := fun _ _ => []
  store : LocalStore Quote := {}

section Service

variable {Quote : Type} (isWord : Char → Bool) (env : ReadEnvironment Quote)

def resolveOhlcvSource (store : LocalStore Quote) (found : Availability)
    (symbol timeframe : String) : Provider :=
  match env.dataSource with
  | .localOnly => .localStore
  | .mt5 => .mt5
  | .remote => .remote
  | .auto =>
    if found.mt5Selectable then .mt5
    else if found.remoteAvailable then .remote
    else if (availableRange isWord store symbol timeframe).isSome then .localStore
    else .mt5

/-- Every existing bar of the range, both ends included. -/
def gatewayBars (market : String → String → List (OHLCV Quote)) (symbol timeframe : String)
    (start stop : Time) : List (OHLCV Quote) :=
  (market symbol timeframe.toUpper).filter (fun bar => start ≤ bar.time ∧ bar.time ≤ stop)

/-- The `call`-th request of the read to the gateway. -/
def remoteGetOhlcv (market : String → String → List (OHLCV Quote)) (call : ℕ)
    (symbol timeframe : String) (start stop : Time) : Except Failure (List (OHLCV Quote)) :=
  match env.gatewayFails call with
  | some failure => .error failure
  | none => .ok (gatewayBars market symbol timeframe start stop)

def ReadEnvironment.writeStop (call : ℕ) : Option Time := (env.writeStops[call]?).join

/-- A write that fails is reported, and keeps what it has written. -/
def fetchThroughOhlcv (store : LocalStore Quote) (call : ℕ) (symbol timeframe : String)
    (bars : List (OHLCV Quote)) : LocalStore Quote × Bool :=
  match env.writeStop call with
  | none => (writeOhlcv isWord store symbol timeframe bars, true)
  | some stop => (writeBefore isWord store symbol timeframe bars stop, false)

/-- The bars of the groups between the two times; the later group wins. -/
def mergeOhlcvBars (start stop : Time) (groups : List (List (OHLCV Quote))) :
    List (OHLCV Quote) :=
  groups.foldl (fun rows bars => merge OHLCV.time rows
    (bars.filter (fun bar => start ≤ bar.time ∧ bar.time ≤ stop))) []

/-- The loop over the missing segments: the store, the bars fetched and whether all of them were
written, with the failure that ended it. -/
structure Fetched (Quote : Type) where
  store : LocalStore Quote
  segments : List (List (OHLCV Quote)) := []
  persistOk : Bool := true
  failure : Option Failure := none

def fetchMissing (market : String → String → List (OHLCV Quote)) (request : ReadRequest) :
    ℕ → List (Time × Time) → Fetched Quote → Fetched Quote
  | _, [], f => f
  | call, (segStart, segStop) :: rest, f =>
    if envelopeCovers isWord f.store request.symbol request.timeframe request.start request.stop
    then f
    else
      match remoteGetOhlcv env market call request.symbol request.timeframe segStart segStop with
      | .error failure => { f with failure := some failure }
      | .ok [] => fetchMissing market request (call + 1) rest f
      | .ok (bar :: bars) =>
        let written := fetchThroughOhlcv isWord env f.store call request.symbol request.timeframe
          (bar :: bars)
        fetchMissing market request (call + 1) rest
          { f with
            store := written.1
            segments := f.segments ++ [bar :: bars]
            persistOk := f.persistOk && written.2 }

def getOhlcvAutoRemote (w : World Quote) (request : ReadRequest) :
    Except Failure (List (OHLCV Quote)) × LocalStore Quote :=
  let read (store : LocalStore Quote) :=
    readOhlcv isWord store request.symbol request.timeframe request.start request.stop
  let covers (store : LocalStore Quote) :=
    envelopeCovers isWord store request.symbol request.timeframe request.start request.stop
  let plan := planOhlcvRead isWord w.store request.symbol request.timeframe request.start
    request.stop
  if plan.serveFrom = .localStore then (.ok (read w.store), w.store)
  else
    let f := fetchMissing isWord env w.market request 0 plan.missing { store := w.store }
    match f.failure with
    | some (.connectionError message) =>
      if covers f.store then (.ok (read f.store), f.store)
      else (.error (.connectionError message), f.store)
    | some failure => (.error failure, f.store)
    | none =>
      if f.persistOk && covers f.store then (.ok (read f.store), f.store)
      else (.ok (mergeOhlcvBars request.start request.stop (read f.store :: f.segments)), f.store)

/-- The same with an offset at one of the bounds: no bar and no stored time compares with it. -/
def getOhlcvAutoRemoteAware (w : World Quote) (request : OhlcvRequest) :
    Except Failure (List (OHLCV Quote)) × LocalStore Quote :=
  match availableRange isWord w.store request.symbol request.timeframe with
  | some _ => (.error (.typeError cannotCompare), w.store)
  | none =>
    match remoteGetOhlcv env w.market 0 request.symbol request.timeframe
        (request.start.wall env.wallClock) (request.stop.wall env.wallClock) with
    | .error failure => (.error failure, w.store)
    | .ok [] => (.ok [], w.store)
    | .ok (bar :: bars) =>
      (.error (.typeError cannotCompare), (fetchThroughOhlcv isWord env w.store 0 request.symbol
        request.timeframe (bar :: bars)).1)

def getOhlcv (w : World Quote) (request : OhlcvRequest) :
    Except Failure (List (OHLCV Quote)) × LocalStore Quote :=
  if env.dataSource = .auto ∧
      resolveOhlcvSource isWord env w.store env.first request.symbol request.timeframe = .remote
  then
    match request.naive? with
    | some request => getOhlcvAutoRemote isWord env w request
    | none => getOhlcvAutoRemoteAware isWord env w request
  else
    match resolveOhlcvSource isWord env w.store env.second request.symbol request.timeframe with
    | .localStore =>
      (.ok (readOhlcv isWord w.store request.symbol request.timeframe request.start.naiveUtc
        request.stop.naiveUtc), w.store)
    | .remote =>
      if !env.remoteSupported then (.error (.connectionError remoteNotConfigured), w.store)
      else
        match remoteGetOhlcv env w.market 0 request.symbol request.timeframe
            (request.start.wall env.wallClock) (request.stop.wall env.wallClock) with
        | .error failure => (.error failure, w.store)
        | .ok [] => (.ok [], w.store)
        | .ok (bar :: bars) =>
          (.ok (bar :: bars), (fetchThroughOhlcv isWord env w.store 0 request.symbol
            request.timeframe (bar :: bars)).1)
    | .mt5 =>
      if !env.mt5Supported then (.error (.connectionError mt5NotInstalled), w.store)
      else (env.mt5Bars, w.store)

/-- A read, or a new bar of a series, later than those that exist. -/
inductive Event (Quote : Type) where
  | read (env : ReadEnvironment Quote) (request : OhlcvRequest)
  | newBar (symbol timeframe : String) (bar : OHLCV Quote)

def step (w : World Quote) : Event Quote → World Quote
  | .read env request => { w with store := (getOhlcv isWord env w request).2 }
  | .newBar symbol timeframe bar =>
    if (w.market symbol timeframe).all (fun b => b.time < bar.time) then
      { w with market := fun s t =>
          if s = symbol ∧ t = timeframe then w.market s t ++ [bar] else w.market s t }
    else w

end Service

end QBackend.MarketData
