import Neverust.Api.Range
import Neverust.Cluster
import Neverust.Storage.Block

/-!
# Pinning on a cluster (`archivist_cluster.rs`)

`pin_payload` uploads content to the members of a cluster in the order of the placement, in batches
of tasks that end in any order, until enough members have it. What the members answer is a parameter
of the loop; `pin_to_member` is the one of the source, over an HTTP client and local stores.
-/

namespace Cluster

open Storage CidBlake3

inductive ClusterError
  | invalidCid (msg : String)
  | sourceFetch (msg : String)
  | http (msg : String)
  | storage (msg : String)
  | unsupported (msg : String)
  deriving Repr, DecidableEq

/-- The text of an error. -/
def ClusterError.text : ClusterError → String
  | .invalidCid msg => s!"invalid cid: {msg}"
  | .sourceFetch msg => s!"source fetch failed: {msg}"
  | .http msg => s!"http error: {msg}"
  | .storage msg => s!"storage error: {msg}"
  | .unsupported msg => s!"unsupported operation: {msg}"

inductive MemberBackend
  | httpApi
  | localNeverust
  deriving Repr, DecidableEq

structure ClusterMember where
  node : ClusterNode
  backend : MemberBackend
  healthy : Bool
  deriving Repr, DecidableEq

structure PinOutcome where
  cid : String
  requestedReplicas : Nat
  achievedReplicas : Nat
  pinnedNodes : List String
  failedNodes : List (String × String)
  deriving Repr, DecidableEq

structure ArchivistCluster where
  members : List ClusterMember
  parallelism : Nat
  parallelism_pos : 0 < parallelism

def ArchivistCluster.new (members : List ClusterMember) (parallelism : Nat) : ArchivistCluster where
  members
  parallelism := max parallelism 1
  parallelism_pos := by omega

/-! ## One member -/

/-- What a member answers to an upload over HTTP. -/
inductive UploadAnswer
  | failed (msg : String)
  | refused (code body : String)
  | unreadable (msg : String)
  | accepted (returned : String)
  deriving Repr, DecidableEq

/-- What is outside: the HTTP client, the stores of the local members by the members' ids (`some` is
the text of an error) and the texts of the errors of CIDs. -/
structure Outside where
  post : String → Bytes → UploadAnswer
  put : String → Block → Option String
  cidText : String → String
  blockText : CidError → String

/-- `trim_end_matches('/')`. -/
def trimSlashes (s : String) : String :=
  String.ofList (s.toList.reverse.dropWhile (· = '/')).reverse

/-- `str::trim`. -/
def trimText (s : String) : String := String.ofList (Api.trim s.toList)

/-- `upload_path_for_cid_str`. -/
def uploadPathForCidStr (cr : Crates) (cidStr : String) : String :=
  match cr.cidOfString cidStr with
  | some cid => if cid.codec = 0xcd01 then "/api/archivist/v1/data" else "/api/archivist/v1/data/raw"
  | none => "/api/archivist/v1/data/raw"

/-- `pin_to_member`. -/
def pinToMember (cr : Crates) (env : Outside) (cid uploadPath : String) (payload : Bytes)
    (member : ClusterMember) : Except ClusterError Unit :=
  match member.backend with
  | .httpApi => do
    let base := trimSlashes member.node.baseUrl
    if base.isEmpty then
      throw (.http s!"node {member.node.id} has empty base_url")
    match env.post (base ++ uploadPath) payload with
    | .failed msg => throw (.http msg)
    | .refused code body => throw (.http s!"upload failed: HTTP {code} {body}")
    | .unreadable msg => throw (.http msg)
    | .accepted returned =>
      if trimText returned ≠ cid then
        throw (.http s!"cid mismatch: expected {cid}, got {trimText returned}")
  | .localNeverust => do
    let some expected := cr.cidOfString cid | throw (.invalidCid (env.cidText cid))
    if uploadPath ≠ "/api/archivist/v1/data/raw" then
      throw (.unsupported "local manifest-mode pin not implemented yet")
    match Block.fromCidAndData cr expected payload with
    | .error e => throw (.storage (env.blockText e))
    | .ok block =>
      match env.put member.node.id block with
      | some msg => throw (.storage msg)
      | none => pure ()

/-! ## The loop over the batches -/

section
variable (pin : ClusterMember → Except ClusterError Unit)
  (order : Nat → List ClusterMember → List ClusterMember)

/-- `member_by_id.get`: of several members with one id the last. -/
def memberById (healthy : List ClusterMember) (id : String) : Option ClusterMember :=
  healthy.reverse.find? fun m => m.node.id = id

/-- The end of one task. -/
def PinOutcome.record (out : PinOutcome) (member : ClusterMember) : PinOutcome :=
  match pin member with
  | .ok () =>
    { out with
      pinnedNodes := out.pinnedNodes ++ [member.node.id]
      achievedReplicas := out.achievedReplicas + 1 }
  | .error e => { out with failedNodes := out.failedNodes ++ [(member.node.id, e.text)] }

/-- The loop of `pin_payload`; `order` is the order in which the tasks of the batch at a cursor end.
Each round moves the cursor on, which bounds the rounds. -/
def pinLoop (healthy : List ClusterMember) (ordered : List ClusterNode)
    (replicas parallelism : Nat) : Nat → Nat → PinOutcome → PinOutcome
  | 0, _, out => out
  | k + 1, cursor, out =>
    if out.achievedReplicas < replicas ∧ cursor < ordered.length then
      let need := replicas - out.achievedReplicas
      let remaining := ordered.length - cursor
      let batchSize := min (min need remaining) parallelism
      let jobs := ((ordered.drop cursor).take batchSize).filterMap fun node =>
        memberById healthy node.id
      pinLoop healthy ordered replicas parallelism k (cursor + batchSize)
        ((order cursor jobs).foldl (PinOutcome.record pin) out)
    else out

/-- The members that are up, in the order of the placement for a CID. -/
def placement (hash : Bytes → Bytes) (healthy : List ClusterMember) (cid : String) :
    List ClusterNode :=
  selectReplicas hash cid (healthy.map ClusterMember.node) (healthy.map ClusterMember.node).length

/-- `pin_payload`, given what becomes of the upload to each member. -/
def pinPayloadWith (hash : Bytes → Bytes) (cluster : ArchivistCluster) (cid : String)
    (replicas : Nat) : Except ClusterError PinOutcome :=
  if trimText cid = "" then .error (.invalidCid "empty cid")
  else
    let replicas := max replicas 1
    let healthy := cluster.members.filter ClusterMember.healthy
    if healthy = [] then .error (.unsupported "no healthy cluster members")
    else
      let ordered := placement hash healthy cid
      .ok (pinLoop pin order healthy ordered replicas cluster.parallelism ordered.length 0
        { cid, requestedReplicas := replicas, achievedReplicas := 0, pinnedNodes := [],
          failedNodes := [] })

end

/-- `pin_payload`. -/
def pinPayload (cr : Crates) (env : Outside)
    (order : Nat → List ClusterMember → List ClusterMember) (cluster : ArchivistCluster)
    (cid : String) (payload : Bytes) (replicas : Nat) : Except ClusterError PinOutcome :=
  pinPayloadWith (pinToMember cr env cid (uploadPathForCidStr cr cid) payload) order cr.blake3
    cluster cid replicas

end Cluster
