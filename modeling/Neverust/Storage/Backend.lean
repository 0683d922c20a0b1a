import Neverust.Lib.Request
import Neverust.Storage.Types

/-!
# Block stores as their callers see them

`StoreReq` has the calls of `BlockStore`, and `StoreAns` what they return. A backend answers calls
and changes a state.

* `Backend.Holds`: a call of `get` returns the block.
* `Backend.Faithful`: on the blocks `K` the backend returns what was put.
* `Backend.ReturnsWhatWasPut`: it does so on all blocks whose CIDs tell their data.
-/

namespace Storage

inductive StoreReq
  | putMany (blocks : List Block)
  | get (cid : Cid)
  | has (cid : Cid)
  | delete (cid : Cid)
  | listCids
  deriving Repr, DecidableEq

abbrev StoreAns : StoreReq → Type
  | .putMany _ => Except StorageError Unit
  | .get _ => Except StorageError Block
  | .has _ => Bool
  | .delete _ => Except StorageError Unit
  | .listCids => List Cid

/-- `BlockStore::put`. -/
def StoreReq.put (block : Block) : StoreReq := .putMany [block]

structure Backend where
  State : Type
  answer : (r : StoreReq) → State → StoreAns r × State

/-- Among the blocks in `K` a CID tells the data. -/
def Consistent (K : Block → Prop) : Prop := ∀ a b, K a → K b → a.cid = b.cid → a = b

namespace Backend

variable (B : Backend)

/-- The store returns the block for its CID. -/
def Holds (s : B.State) (b : Block) : Prop := (B.answer (.get b.cid) s).1 = .ok b

/-- A backend that returns what was put, as long as only blocks in `K` are put: in a state of
`Valid`, `put_many` stores its blocks and keeps the others, and `get` keeps all. -/
structure Faithful (K : Block → Prop) (Valid : B.State → Prop) : Prop where
  put_ok : ∀ {s : B.State} {blocks : List Block}, Valid s → (∀ b ∈ blocks, K b) →
    (B.answer (.putMany blocks) s).1 = .ok ()
  put_valid : ∀ {s : B.State} {blocks : List Block}, Valid s → (∀ b ∈ blocks, K b) →
    Valid (B.answer (.putMany blocks) s).2
  put_holds : ∀ {s : B.State} {blocks : List Block}, Valid s → (∀ b ∈ blocks, K b) →
    ∀ b ∈ blocks, B.Holds (B.answer (.putMany blocks) s).2 b
  put_keeps : ∀ {s : B.State} {blocks : List Block}, Valid s → (∀ b ∈ blocks, K b) →
    ∀ b, B.Holds s b → B.Holds (B.answer (.putMany blocks) s).2 b
  get_valid : ∀ {s : B.State} {cid : Cid}, Valid s → Valid (B.answer (.get cid) s).2
  get_keeps : ∀ {s : B.State} {cid : Cid}, Valid s →
    ∀ b, B.Holds s b → B.Holds (B.answer (.get cid) s).2 b

/-- A store that returns what was put, from the states `Valid K` on, if only blocks in `K` are put
and these are consistent. -/
def ReturnsWhatWasPut (Valid : (Block → Prop) → B.State → Prop) : Prop :=
  ∀ K, Consistent K → B.Faithful K (Valid K)

end Backend

end Storage
