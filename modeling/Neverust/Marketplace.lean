import Mathlib
import Neverust.Lib.Io
import Neverust.Lib.Rust

/-!
# The marketplace state (`marketplace.rs`)

`MarketplaceStore` keeps the availability of the node's storage, the purchases and the sales slots
in memory. A call that changes them writes the whole state to a temporary file, which then takes the
place of the state file. `open` reads that file. What `serde_json` writes and reads are the fields of
`StateJson`; `encode` and `decode` stand for it.

The clock and the random identifiers are arguments of the calls that use them.
-/

open Std (ExtTreeMap)

namespace Marketplace

open Io Rust

/-! ## Numbers as text -/

/-- The characters `trim` removes: those with the property `White_Space`. -/
def isWhiteSpace (c : Char) : Bool :=
  let n := c.toNat
  (0x9 ≤ n && n ≤ 0xd) || n = 0x20 || n = 0x85 || n = 0xa0 || n = 0x1680 ||
    (0x2000 ≤ n && n ≤ 0x200a) || n = 0x2028 || n = 0x2029 || n = 0x202f || n = 0x205f || n = 0x3000

def trim (s : List Char) : List Char :=
  ((s.dropWhile isWhiteSpace).reverse.dropWhile isWhiteSpace).reverse

/-- `decimal_gt_zero`: ASCII digits, not all of them zero. -/
def decimalGtZero (value : String) : Bool :=
  let trimmed := trim value.toList
  trimmed ≠ [] && trimmed.all (fun c => '0' ≤ c && c ≤ '9') && trimmed.any (· ≠ '0')

/-! ## Records -/

structure SaleAvailabilityInput where
  minimumPricePerBytePerSecond : String
  maximumCollateralPerByte : String
  maximumDuration : UInt64
  availableUntil : Option Int64
  deriving DecidableEq

structure SaleAvailabilityRecord where
  totalSize : UInt64
  minimumPricePerBytePerSecond : String
  maximumCollateralPerByte : String
  maximumDuration : UInt64
  availableUntil : Option Int64
  updatedAt : UInt64
  deriving DecidableEq

structure StorageRequestInput where
  duration : UInt64
  proofProbability : String
  pricePerBytePerSecond : String
  collateralPerByte : String
  expiry : UInt64
  nodes : Option UInt64
  tolerance : Option UInt64
  deriving DecidableEq

structure StorageAskRecord where
  slots : UInt64
  slotSize : UInt64
  duration : UInt64
  proofProbability : String
  pricePerBytePerSecond : String
  collateralPerByte : String
  maxSlotLoss : UInt64
  deriving DecidableEq

structure StorageContentRecord where
  cid : String
  merkleRoot : String
  deriving DecidableEq

structure StorageRequestRecord where
  id : String
  client : String
  ask : StorageAskRecord
  content : StorageContentRecord
  expiry : UInt64
  nonce : String
  deriving DecidableEq

inductive PurchaseState
  | cancelled | errored | failed | finished | pending | started | submitted | unknown
  deriving DecidableEq

inductive SalesSlotState
  | cancelled | downloading | errored | failed | filled | filling | finished | ignored
  | initialProving | payout | preparing | proving | unknown
  deriving DecidableEq

structure PurchaseRecord where
  requestId : String
  request : StorageRequestRecord
  state : PurchaseState
  error : Option String
  deriving DecidableEq

structure SalesSlotRecord where
  id : String
  state : SalesSlotState
  requestId : String
  slotIndex : UInt64
  request : StorageRequestRecord
  deriving DecidableEq

structure MarketplaceStateFile where
  availability : Option SaleAvailabilityRecord
  purchases : ExtTreeMap String PurchaseRecord
  slots : ExtTreeMap String SalesSlotRecord
  nextSlotIndex : UInt64
  deriving DecidableEq

/-- `MarketplaceStateFile::default`. -/
def MarketplaceStateFile.default : MarketplaceStateFile where
  availability := none
  purchases := ∅
  slots := ∅
  nextSlotIndex := 0

/-! ## What is written down -/

/-- The fields of an availability that are not skipped. -/
structure AvailabilityJson where
  minimumPricePerBytePerSecond : String
  maximumCollateralPerByte : String
  maximumDuration : UInt64
  availableUntil : Option Int64
  deriving DecidableEq

structure StateJson where
  availability : Option AvailabilityJson
  purchases : ExtTreeMap String PurchaseRecord
  slots : ExtTreeMap String SalesSlotRecord
  nextSlotIndex : UInt64
  deriving DecidableEq

def SaleAvailabilityRecord.toJson (r : SaleAvailabilityRecord) : AvailabilityJson where
  minimumPricePerBytePerSecond := r.minimumPricePerBytePerSecond
  maximumCollateralPerByte := r.maximumCollateralPerByte
  maximumDuration := r.maximumDuration
  availableUntil := r.availableUntil

/-- The skipped fields get their default. -/
def AvailabilityJson.toRecord (j : AvailabilityJson) : SaleAvailabilityRecord where
  totalSize := 0
  minimumPricePerBytePerSecond := j.minimumPricePerBytePerSecond
  maximumCollateralPerByte := j.maximumCollateralPerByte
  maximumDuration := j.maximumDuration
  availableUntil := j.availableUntil
  updatedAt := 0

def MarketplaceStateFile.toJson (s : MarketplaceStateFile) : StateJson where
  availability := s.availability.map SaleAvailabilityRecord.toJson
  purchases := s.purchases
  slots := s.slots
  nextSlotIndex := s.nextSlotIndex

def StateJson.toState (j : StateJson) : MarketplaceStateFile where
  availability := j.availability.map AvailabilityJson.toRecord
  purchases := j.purchases
  slots := j.slots
  nextSlotIndex := j.nextSlotIndex

/-! ## Errors -/

inductive MarketError
  | notEnoughQuota
  | maximumDuration
  | minimumPrice
  | maximumCollateral
  | availableUntil
  | persistAvailability (e : IoError)
  | duration
  | expiry
  | proofProbability
  | collateralPerByte
  | pricePerByte
  | nodes
  | toleranceZero
  | toleranceOverNodes
  | erasure
  | persistPurchase (e : IoError)
  deriving DecidableEq

/-- The text of an error; `io` gives that of an error of the file system. -/
def MarketError.text (io : IoError → String) : MarketError → String
  | .notEnoughQuota => "not enough node storage quota available"
  | .maximumDuration => "maximumDuration must be larger than zero"
  | .minimumPrice => "minimumPricePerBytePerSecond must be larger than zero"
  | .maximumCollateral => "maximumCollateralPerByte must be larger than zero"
  | .availableUntil => "availableUntil must not be negative"
  | .persistAvailability e => "failed to persist marketplace availability: " ++ io e
  | .duration => "duration must be greater than zero"
  | .expiry => "Expiry must be greater than zero and less than the request's duration"
  | .proofProbability => "Proof probability must be greater than zero"
  | .collateralPerByte => "Collateral per byte must be greater than zero"
  | .pricePerByte => "Price per byte per second must be greater than zero"
  | .nodes => "nodes must be at least 3"
  | .toleranceZero => "Tolerance needs to be bigger then zero"
  | .toleranceOverNodes => "Invalid parameters: `tolerance` cannot be greater than `nodes`"
  | .erasure =>
    "Invalid parameters: parameters must satify `1 < (nodes - tolerance) ≥ tolerance`"
  | .persistPurchase e => "failed to persist marketplace purchase: " ++ io e

/-! ## Checks -/

/-- The checks of `SaleAvailabilityRecord::from_input`. -/
def checkAvailability (input : SaleAvailabilityInput) (defaultTotalSize : UInt64) :
    Except MarketError Unit :=
  if defaultTotalSize = 0 then .error .notEnoughQuota
  else if input.maximumDuration = 0 then .error .maximumDuration
  else if !decimalGtZero input.minimumPricePerBytePerSecond then .error .minimumPrice
  else if !decimalGtZero input.maximumCollateralPerByte then .error .maximumCollateral
  else
    match input.availableUntil with
    | some availableUntil => if availableUntil < 0 then .error .availableUntil else .ok ()
    | none => .ok ()

def SaleAvailabilityRecord.ofInput (input : SaleAvailabilityInput) (totalSize now : UInt64) :
    SaleAvailabilityRecord where
  totalSize := totalSize
  minimumPricePerBytePerSecond := input.minimumPricePerBytePerSecond
  maximumCollateralPerByte := input.maximumCollateralPerByte
  maximumDuration := input.maximumDuration
  availableUntil := input.availableUntil
  updatedAt := now

namespace StorageRequestInput

def nodesOrDefault (r : StorageRequestInput) : UInt64 := r.nodes.getD 3

def toleranceOrDefault (r : StorageRequestInput) : UInt64 := r.tolerance.getD 1

/-- The checks of `reserve_request`. -/
def check (r : StorageRequestInput) : Except MarketError Unit :=
  let nodes := r.nodesOrDefault.toNat
  let tolerance := r.toleranceOrDefault.toNat
  if r.duration = 0 then .error .duration
  else if r.expiry = 0 ∨ r.expiry ≥ r.duration then .error .expiry
  else if !decimalGtZero r.proofProbability then .error .proofProbability
  else if !decimalGtZero r.collateralPerByte then .error .collateralPerByte
  else if !decimalGtZero r.pricePerBytePerSecond then .error .pricePerByte
  else if nodes < 3 then .error .nodes
  else if tolerance = 0 then .error .toleranceZero
  else if tolerance > nodes then .error .toleranceOverNodes
  else if nodes - tolerance ≤ 1 ∨ nodes - tolerance < tolerance then .error .erasure
  else .ok ()

end StorageRequestInput

/-! ## Calls -/

/-- The random identifiers of a call of `reserve_request`. -/
structure Ids where
  requestId : String
  nonce : String
  slotId : String
  deriving DecidableEq

inductive Call
  | setAvailability (input : SaleAvailabilityInput) (defaultTotalSize now : UInt64)
  | reserveRequest (cid : String) (request : StorageRequestInput) (slotSize : UInt64)
      (clientEthAddress : Option String) (ids : Ids)
  deriving DecidableEq

def noClient : String := "0x0000000000000000000000000000000000000000"

def requestRecord (cid : String) (request : StorageRequestInput) (slotSize : UInt64)
    (clientEthAddress : Option String) (ids : Ids) : StorageRequestRecord where
  id := ids.requestId
  client := clientEthAddress.getD noClient
  ask :=
    { slots := request.nodesOrDefault, slotSize, duration := request.duration,
      proofProbability := request.proofProbability,
      pricePerBytePerSecond := request.pricePerBytePerSecond,
      collateralPerByte := request.collateralPerByte,
      maxSlotLoss := request.toleranceOrDefault }
  content := { cid, merkleRoot := cid }
  expiry := request.expiry
  nonce := ids.nonce

namespace Call

/-- What a call checks before it changes anything. -/
def check : Call → Except MarketError Unit
  | setAvailability input defaultTotalSize _ => checkAvailability input defaultTotalSize
  | reserveRequest _ request _ _ _ => request.check

/-- What a call does to the state in memory. -/
def update : Call → MarketplaceStateFile → MarketplaceStateFile
  | setAvailability input defaultTotalSize now, s =>
    { s with availability := some (.ofInput input defaultTotalSize now) }
  | reserveRequest cid request slotSize clientEthAddress ids, s =>
    let record := requestRecord cid request slotSize clientEthAddress ids
    let purchase : PurchaseRecord :=
      { requestId := ids.requestId, request := record, state := .submitted, error := none }
    let slot : SalesSlotRecord :=
      { id := ids.slotId, state := .downloading, requestId := ids.requestId,
        slotIndex := s.nextSlotIndex, request := record }
    { s with
      nextSlotIndex := saturatingAdd64 s.nextSlotIndex 1
      purchases := s.purchases.insert ids.requestId purchase
      slots := if s.availability.isSome then s.slots.insert ids.slotId slot else s.slots }

/-- The error of a call whose state could not be written. -/
def persistError : Call → IoError → MarketError
  | setAvailability .. => .persistAvailability
  | reserveRequest .. => .persistPurchase

end Call

/-! ## The store -/

/-- The state file and the temporary file beside it. They are two files unless the extension of the
state file is `tmp`, which `with_extension` leaves as it is; that case is left out. -/
inductive MarketFile
  | state
  | tmp
  deriving DecidableEq

abbrev Disk := World MarketFile

instance : FromIo IoError := ⟨id⟩

/-- A store and its disk. -/
structure MarketplaceStore where
  inner : MarketplaceStateFile
  disk : Disk

section
variable (encode : StateJson → Bytes) (decode : Bytes → Option StateJson)

/-- `persist_locked`. -/
def persistLocked (state : MarketplaceStateFile) : Prog MarketFile IoError Unit := do
  writeFile .tmp (encode state.toJson)
  rename .tmp .state

/-- The state after the call is in memory before it is written down. -/
def Call.run (c : Call) (s : MarketplaceStore) : Except MarketError Unit × MarketplaceStore :=
  match c.check with
  | .error e => (.error e, s)
  | .ok () =>
    let inner := c.update s.inner
    match persistLocked encode inner s.disk with
    | .ok () disk => (.ok (), { inner, disk })
    | .error e disk => (.error (c.persistError e), { inner, disk })

/-- The contents of the state file, `none` if there is none. -/
def readState : Prog MarketFile IoError (Option Bytes) := do
  match ← captured (readFile .state IoError.notFound) with
  | .ok bytes => return some bytes
  | .error .notFound => return none
  | .error e => throw e

/-- `MarketplaceStore::open`: a file that does not parse counts as an empty state. -/
def openStore : Prog MarketFile IoError MarketplaceStateFile := do
  attempt .createDir
  match ← readState with
  | none => return .default
  | some bytes => return ((decode bytes).map StateJson.toState).getD .default

/-- The calls in order, as long as they succeed. -/
def runAll (s : MarketplaceStore) : List Call → Option MarketplaceStore
  | [] => some s
  | c :: calls =>
    match c.run encode s with
    | (.ok (), s) => runAll s calls
    | (.error _, _) => none

end

end Marketplace
